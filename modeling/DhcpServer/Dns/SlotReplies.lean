import DhcpServer.Dns.Correlation
import DhcpServer.Dns.Messages

/-!
# One reply for each query in a slot

Each step of the DNS task deals with one slot at most. What it does to that slot is one of a few
moves: the slot is taken by a query, goes over to the upstream server, or is freed. A ledger for
each slot lists the queries that took it and the datagrams sent for it; every query but the one in
the slot has its datagram, in the same order, as long as every read of a forward socket gives a
datagram with the id of the slot's query.
-/

namespace DhcpServer.Dns.ForwardSlots

open Library List Option

open ExternalCache (Delivery kMaxPendingForwards onSettings)

open InternalCache (Inet)

open Message (buildAnswer buildNxdomain kMaxMsgSize kMaxNameLen parseQuery transactionId)

variable {state state' : State} {action : Action} {outputs : List Output} {index : Nat}
  {slot slot' : PendingForward}

structure Datagram where
  client : Client
  bytes : Bytes

def Query.question (query : Query) : Message.Question :=
  ⟨query.domain, query.qtype, query.qclass, query.qid⟩

def PendingForward.question (slot : PendingForward) : Message.Question :=
  ⟨slot.domain, slot.qtype, slot.qclass, slot.qid⟩

def Query.Parsed (query : Query) : Prop := parseQuery query.datagram = some query.question

def Accepted : Action → Prop
  | .query query _ _ => query.Parsed
  | _ => True

/-- The bytes of a reply, as the server builds or relays them. -/
def Reply.bytes (inet : Inet) (leftover : Buffer) (slot : PendingForward) : Reply → Bytes
  | .answer ips ttl =>
    buildAnswer inet leftover kMaxMsgSize slot.question ips (UInt32.ofNat ttl)
  | .nxdomain => buildNxdomain kMaxMsgSize slot.question
  | .relayed bytes => bytes

/-- What an output sends; a reply without bytes is not sent. -/
def Output.datagram (inet : Inet) (leftover : Buffer) : Output → Option Datagram
  | .stored _ _ _ _ => none
  | .replied slot reply _ =>
    let bytes := reply.bytes inet leftover slot
    if bytes.isEmpty then none else some ⟨slot.client, bytes⟩

/-! ## What a step does to a slot -/

def PendingForward.freed (slot : PendingForward) : PendingForward :=
  { slot with active := false, fwdFd := none, domain := [] }

def PendingForward.forwarded (slot : PendingForward) (fd nowMs : Nat) : PendingForward :=
  { slot with fwdFd := some fd, waitingCache := false, sentMs := nowMs }

def Action.query? : Action → Option Query
  | .query asked _ _ => some asked
  | _ => none

inductive SlotMove (slot : PendingForward) : Action → List Output → PendingForward → Prop
  | stays {action : Action} (hquery : action.query? = none) : SlotMove slot action [] slot
  | forwarded {action : Action} (hquery : action.query? = none) (hactive : slot.active = true)
      (fd nowMs : Nat) : SlotMove slot action [] (slot.forwarded fd nowMs)
  | answered {action : Action} {stored : List Output} {reply : Reply} {source : Source}
      (hquery : action.query? = none) (hactive : slot.active = true)
      (hstored : ∀ output ∈ stored, ∃ ips ttl, output = .stored slot ips ttl source)
      (hbuilt : ∀ bytes, reply ≠ .relayed bytes) :
      SlotMove slot action (stored ++ [.replied slot reply source]) slot.freed
  | relayed {index : Nat} {reply : UpstreamReply} {stored : List Output}
      (hactive : slot.active = true)
      (hstored : ∀ output ∈ stored, ∃ ips ttl, output = .stored slot ips ttl .upstream) :
      SlotMove slot (.upstream index (some reply))
        (stored ++ [.replied slot (.relayed reply.bytes) .upstream]) slot.freed
  | dropped {index : Nat} {received : Option UpstreamReply} (hactive : slot.active = true)
      (hempty : ∀ reply, received = some reply → reply.bytes = []) :
      SlotMove slot (.upstream index received) [] slot.freed
  | entered {asked : Query} {degraded : Bool} {opened : Option Nat} (hidle : slot.active = false)
      (nowMs : Nat) : SlotMove slot (.query asked degraded opened) [] (pendingForward asked nowMs)
  | passed {asked : Query} {degraded : Bool} {opened : Option Nat} (hidle : slot.active = false)
      (fd nowMs : Nat) :
      SlotMove slot (.query asked degraded opened) [] ((pendingForward asked nowMs).forwarded fd nowMs)
  | refused {asked : Query} {degraded : Bool} {opened : Option Nat} (hidle : slot.active = false)
      (nowMs : Nat) :
      SlotMove slot (.query asked degraded opened)
        [.replied (pendingForward asked nowMs) .nxdomain .server] (pendingForward asked nowMs).freed

/-- The slot dealt with, if any, makes a move, and the others stay as they are. -/
structure Deals (dealt : Option Nat) (slots : Nat → PendingForward) (action : Action)
    (outputs : List Output) (slots' : Nat → PendingForward) : Prop where
  move : ∀ index, dealt = some index → SlotMove (slots index) action outputs (slots' index)
  frame : ∀ other, dealt ≠ some other → slots' other = slots other

theorem Deals.setSlot (hmove : SlotMove (state.slots index) action outputs slot) :
    Deals (some index) state.slots action outputs (state.setSlot index slot).slots := by
  refine ⟨fun other hother ↦ ?_, fun other hother ↦ ?_⟩
  · cases hother
    rw [setSlot_slots]
    exact hmove
  · have hne : other ≠ index := fun heq ↦ hother (congrArg some heq.symm)
    simp [State.setSlot, hne]

theorem Deals.idle (slots : Nat → PendingForward) (action : Action) (outputs : List Output) :
    Deals none slots action outputs slots :=
  ⟨fun _ hnone ↦ absurd hnone (by simp), fun _ _ ↦ rfl⟩

theorem Deals.stays (dealt : Option Nat) (slots : Nat → PendingForward)
    (hquery : action.query? = none) : Deals dealt slots action [] slots :=
  ⟨fun _ _ ↦ .stays hquery, fun _ _ ↦ rfl⟩

variable {opened : Option Nat}

/-- The slot's name is as short as one read from a query. -/
def NameFits (slot : PendingForward) : Prop := slot.domain.length ≤ kMaxNameLen + 1

/-- The queries that took a slot and the datagrams sent for it. -/
structure Ledger where
  entered : List Query
  sent : List Datagram

section

variable (inet : Inet) (leftover : Buffer)

/-- The datagram goes to the query's client and carries its transaction id. -/
def Answers (asked : Query) (datagram : Datagram) : Prop :=
  datagram.client = asked.client ∧ transactionId datagram.bytes = some asked.qid

/-- The slot is idle, or it holds the one query that is pending. -/
def Holds (slot : PendingForward) : List Query → Prop
  | [] => slot.active = false
  | [asked] => slot.active = true ∧ slot.client = asked.client ∧ slot.question = asked.question
  | _ => False

/-- Of the queries pending before and those that entered, all but the ones still pending have
their datagrams, one for each. -/
def Settled (pending : List Query) (page : Ledger) (pending' : List Query) : Prop :=
  ∃ answered, pending ++ page.entered = answered ++ pending' ∧ List.Forall₂ Answers answered page.sent

variable {inet leftover} {pending pending' : List Query} {asked : Query}

theorem Holds.of_idle (hholds : Holds slot pending) (hidle : slot.active = false) : pending = [] := by
  match pending, hholds with
  | [], _ => rfl
  | [_], hholds =>
    rw [hholds.1] at hidle
    cases hidle

theorem Holds.of_active (hholds : Holds slot pending) (hactive : slot.active) :
    ∃ asked, pending = [asked] ∧ slot.client = asked.client ∧ slot.question = asked.question := by
  match pending, hholds with
  | [], hholds =>
    rw [hholds] at hactive
    cases hactive
  | [asked], hholds => exact ⟨asked, rfl, hholds.2⟩

theorem Settled.refl (pending : List Query) : Settled pending ⟨[], []⟩ pending := ⟨[], by simp, .nil⟩

theorem Settled.trans {first second : Ledger} {middle : List Query}
    (hfirst : Settled pending first middle) (hsecond : Settled middle second pending') :
    Settled pending ⟨first.entered ++ second.entered, first.sent ++ second.sent⟩ pending' := by
  obtain ⟨before, hbefore, hsent⟩ := hfirst
  obtain ⟨after, hafter, hsent'⟩ := hsecond
  refine ⟨before ++ after, ?_, rel_append hsent hsent'⟩
  calc pending ++ (first.entered ++ second.entered)
      = before ++ (middle ++ second.entered) := by
        rw [← append_assoc, hbefore, append_assoc]
    _ = before ++ after ++ pending' := by rw [hafter, append_assoc]

theorem Settled.leave {datagram : Datagram} (hanswers : Answers asked datagram) :
    Settled [asked] ⟨[], [datagram]⟩ [] :=
  ⟨[asked], rfl, .cons hanswers .nil⟩

theorem datagrams_of_stored {stored : List Output} {source : Source}
    (hstored : ∀ output ∈ stored, ∃ ips ttl, output = .stored slot ips ttl source) :
    stored.filterMap (Output.datagram inet leftover) = [] := by
  rw [filterMap_eq_nil_iff]
  intro output houtput
  obtain ⟨ips, ttl, rfl⟩ := hstored output houtput
  rfl

theorem datagrams_of_replied {reply : Reply} {source : Source} {id : UInt16}
    {stored : List Output}
    (hstored : ∀ output ∈ stored, ∃ ips ttl, output = .stored slot ips ttl source)
    (hid : transactionId (reply.bytes inet leftover slot) = some id) :
    (stored ++ [Output.replied slot reply source]).filterMap (Output.datagram inet leftover) =
      [⟨slot.client, reply.bytes inet leftover slot⟩] := by
  have hsent : ¬ (reply.bytes inet leftover slot).isEmpty := by
    intro hempty
    rw [List.isEmpty_iff.mp hempty] at hid
    cases hid
  rw [filterMap_append, datagrams_of_stored hstored]
  simp [Output.datagram, hsent]

theorem transactionId_built {reply : Reply} (hbuilt : ∀ bytes, reply ≠ .relayed bytes)
    (hname : NameFits slot) : transactionId (reply.bytes inet leftover slot) = some slot.qid := by
  cases reply with
  | answer ips ttl => exact Message.transactionId_buildAnswer inet leftover ips _ hname
  | nxdomain => exact Message.transactionId_buildNxdomain hname
  | relayed bytes => exact absurd rfl (hbuilt bytes)

theorem SlotMove.settled (hmove : SlotMove slot action outputs slot') (haccepted : Accepted action)
    (hname : NameFits slot)
    (hown : ∀ index received, action = .upstream index received →
      ∃ reply, received = some reply ∧ transactionId reply.bytes = some slot.qid)
    (hholds : Holds slot pending) :
    ∃ pending', Holds slot' pending' ∧
      Settled pending ⟨action.query?.toList, outputs.filterMap (Output.datagram inet leftover)⟩
        pending' := by
  cases hmove with
  | stays hquery =>
    rw [hquery]
    exact ⟨pending, hholds, .refl pending⟩
  | forwarded hquery hactive fd nowMs =>
    obtain ⟨asked, rfl, hclient, hquestion⟩ := hholds.of_active hactive
    rw [hquery]
    exact ⟨[asked], ⟨hactive, hclient, hquestion⟩, .refl [asked]⟩
  | answered hquery hactive hstored hbuilt =>
    obtain ⟨asked, rfl, hclient, hquestion⟩ := hholds.of_active hactive
    have hid : transactionId (Reply.bytes inet leftover slot _) = some slot.qid :=
      transactionId_built hbuilt hname
    rw [hquery, datagrams_of_replied hstored hid]
    exact ⟨[], rfl, .leave ⟨hclient, hid.trans (congrArg (some ∘ Message.Question.id) hquestion)⟩⟩
  | @relayed _ reply _ hactive hstored =>
    obtain ⟨asked, rfl, hclient, hquestion⟩ := hholds.of_active hactive
    obtain ⟨_, ⟨rfl⟩, hid⟩ := hown _ _ rfl
    have hrelayed : transactionId ((Reply.relayed reply.bytes).bytes inet leftover slot) =
        some slot.qid := hid
    have hqid : slot.qid = asked.qid := congrArg Message.Question.id hquestion
    rw [datagrams_of_replied hstored hrelayed]
    exact ⟨[], rfl, .leave ⟨hclient, hqid ▸ hid⟩⟩
  | dropped hactive hempty =>
    obtain ⟨reply, hreply, hid⟩ := hown _ _ rfl
    rw [hempty reply hreply] at hid
    cases hid
  | @entered asked _ _ hidle nowMs =>
    obtain rfl := hholds.of_idle hidle
    exact ⟨[asked], ⟨rfl, rfl, rfl⟩, [], rfl, .nil⟩
  | @passed asked _ _ hidle fd nowMs =>
    obtain rfl := hholds.of_idle hidle
    exact ⟨[asked], ⟨rfl, rfl, rfl⟩, [], rfl, .nil⟩
  | @refused asked _ _ hidle nowMs =>
    obtain rfl := hholds.of_idle hidle
    have hfits : NameFits (pendingForward asked nowMs) := Message.parseQuery_domain haccepted
    have hid : transactionId (Reply.nxdomain.bytes inet leftover (pendingForward asked nowMs)) =
        some asked.qid := transactionId_built (by simp) hfits
    have hsent : [Output.replied (pendingForward asked nowMs) .nxdomain .server].filterMap
        (Output.datagram inet leftover) = [⟨asked.client, _⟩] :=
      datagrams_of_replied (fun _ houtput ↦ absurd houtput not_mem_nil) hid
    rw [hsent]
    exact ⟨[], rfl, [asked], rfl, .cons ⟨rfl, hid⟩ .nil⟩

end

def sampleQuery : Query :=
  ⟨⟨0, 1024⟩, 0x1234, 1, 1, [0x61], [0x12, 0x34, 1, 0, 0, 1, 0, 0, 0, 0, 0, 0, 1, 0x61, 0, 0, 1, 0, 1]⟩

end DhcpServer.Dns.ForwardSlots
