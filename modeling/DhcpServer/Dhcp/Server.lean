import DhcpServer.Dhcp.AllowedList
import DhcpServer.Dhcp.ClientName
import DhcpServer.Dhcp.DeclinedAddresses

/-!
# The DHCP server

`DhcpServer::handleDhcpMessage` and everything it calls, as functions on the state the DHCP task
owns: the lease table, the refused addresses and the microsecond clock. Addresses are the raw
`uint32_t` of the source (network byte order in memory), so comparing two of them with `≤` is not
the numeric order of the addresses; `isIpInRange` swaps first, the scan of `selectIp` does not.

The clock moves while the server waits for a probe, so a message that probes ends later than it
began. The scan may probe any number of addresses and has no bound of its own: it takes fuel, and
`none` says that the fuel ran out before the call came back.
-/

namespace DhcpServer.Dhcp

open Library

def kDhcpDiscover : UInt8 := 1
def kDhcpOffer : UInt8 := 2
def kDhcpRequest : UInt8 := 3
def kDhcpDecline : UInt8 := 4
def kDhcpAck : UInt8 := 5
def kDhcpNak : UInt8 := 6
def kDhcpRelease : UInt8 := 7

def kOptPad : UInt8 := 0
def kOptSubnetMask : UInt8 := 1
def kOptRouter : UInt8 := 3
def kOptDnsServer : UInt8 := 6
def kOptReqAddr : UInt8 := 50
def kOptLeaseTime : UInt8 := 51
def kOptMsgType : UInt8 := 53
def kOptServerId : UInt8 := 54
def kOptEnd : UInt8 := 255

def kMinMsgSize : Nat := 240
def kOptionsOffset : Nat := 240
def kOptionsBytes : Nat := 308
def kMagicCookie : UInt32 := 0x63825363
def kBroadcastIp : UInt32 := 0xFFFFFFFF

/-- How long an offered, not yet confirmed address stays reserved. -/
def kOfferHoldSec : Nat := 60

structure DhcpLease where
  mac : Mac
  ip : UInt32
  /-- seconds since boot, 32 bits -/
  expiry : Nat
  hostname : Bytes
deriving DecidableEq

structure StaticEntry where
  mac : Mac
  ip : UInt32
  useGateway : Bool := true
  enabled : Bool := true
  useDns : Bool := true

inductive DnsMode
  | auto
  | manual

structure Config where
  serverIp : UInt32
  serverNetmask : UInt32
  serverGateway : UInt32
  rangeStart : UInt32
  rangeEnd : UInt32
  leaseTimeSec : UInt32
  dnsMode : DnsMode := .auto
  dnsManualIp : UInt32 := 0
  dnsServerRunning : Bool := false
  maxLeaseEntriesEffective : Nat := 64
  staticBindings : List StaticEntry := []
  allowOnly : Bool := false
  allowedList : AllowedList.Table := ⟨none⟩

/-- `refreshAllowedStaticRefs`: the bindings as the allow-list policy reads them. -/
def Config.allowedStaticRefs (cfg : Config) : List AllowedList.StaticRef :=
  cfg.staticBindings.map fun entry ↦ ⟨entry.mac, entry.enabled⟩

abbrev LeaseTable := Std.TreeMap UInt32 DhcpLease

structure State where
  leases : LeaseTable
  declined : DeclinedAddresses
  leaseLimitRejects : Nat
  clockUs : Nat

def State.start (clockUs : Nat) : State := ⟨∅, .empty, 0, clockUs⟩

def currentTimeSec (clockUs : Nat) : Nat := clockUs / 1000000 % 0x100000000

def currentTimeMs (clockUs : Nat) : Nat := clockUs / 1000

structure Reply where
  msgType : UInt8
  destIp : UInt32
  xid : UInt32
  yiaddr : UInt32
  siaddr : UInt32
  giaddr : UInt32
  chaddr : Mac
  options : Bytes
deriving DecidableEq

/-- What lwIP answers: an ARP probe of an address at a time gives the owner found in the cache,
an ICMP probe whether anyone replied; both say how long they took. -/
structure Net where
  arp : (clockUs : Nat) → UInt32 → Option Mac × Nat
  icmp : (clockUs : Nat) → UInt32 → Bool × Nat

structure ProbeResult where
  inUse : Bool
  ownerMac : Mac
  clockUs : Nat

def zeroMac : Mac := Vector.replicate 6 0

def probeIp (net : Net) (ip : UInt32) (clockUs : Nat) : ProbeResult :=
  match net.arp clockUs ip with
  | (some owner, took) => ⟨true, owner, clockUs + took⟩
  | (none, took) =>
    match net.icmp (clockUs + took) ip with
    | (false, ping) => ⟨false, zeroMac, clockUs + took + ping⟩
    | (true, ping) =>
      match net.arp (clockUs + took + ping) ip with
      | (owner, again) => ⟨true, owner.getD zeroMac, clockUs + took + ping + again⟩

def isIpInRange (cfg : Config) (ip : UInt32) : Bool :=
  if ip = cfg.serverIp then false
  else byteSwap cfg.rangeStart ≤ byteSwap ip && byteSwap ip ≤ byteSwap cfg.rangeEnd

def isStaticBindingForMac (cfg : Config) (mac : Mac) (ip : UInt32) : Bool :=
  cfg.staticBindings.any fun entry ↦ entry.enabled && entry.ip == ip && entry.mac == mac

def addressDeclined (state : State) (ip : UInt32) (clockUs : Nat) : Bool :=
  state.declined.isDeclined ip (currentTimeMs clockUs)

def nextIp (ip : UInt32) : UInt32 := byteSwap (byteSwap ip + 1)

/-- Step 3 of `selectIp`. The answer is the address (0 when the scan left the range) and the time
at which it was found. -/
def scanRange (cfg : Config) (net : Net) (state : State) :
    (fuel : Nat) → (ip : UInt32) → (clockUs : Nat) → Option (UInt32 × Nat)
  | 0, _, _ => none
  | fuel + 1, ip, clockUs =>
    if ip ≤ cfg.rangeEnd then
      if ip = cfg.serverIp then scanRange cfg net state fuel (nextIp ip) clockUs
      else if ip ∈ state.leases then scanRange cfg net state fuel (nextIp ip) clockUs
      else if addressDeclined state ip clockUs then
        scanRange cfg net state fuel (nextIp ip) clockUs
      else
        let probe := probeIp net ip clockUs
        if probe.inUse then scanRange cfg net state fuel (nextIp ip) probe.clockUs
        else some (ip, probe.clockUs)
    else some (0, clockUs)

/-- Step 1 of `selectIp`: an enabled binding of the client whose address has no entry. -/
def freeBinding (cfg : Config) (state : State) (mac : Mac) : Option StaticEntry :=
  cfg.staticBindings.find? fun entry ↦
    entry.enabled && entry.mac == mac && !state.leases.contains entry.ip

/-- Step 2 of `selectIp`: the first entry of the table, in key order, the client already has. -/
def ownEntry (state : State) (mac : Mac) : Option (UInt32 × DhcpLease) :=
  state.leases.toList.find? fun entry ↦ entry.2.mac == mac

def selectIp (fuel : Nat) (cfg : Config) (net : Net) (mac : Mac) (state : State) (clockUs : Nat) :
    Option (UInt32 × Nat) :=
  match freeBinding cfg state mac with
  | some entry => some (entry.ip, clockUs)
  | none =>
    match ownEntry state mac with
    | some (ip, _) => some (ip, clockUs)
    | none => scanRange cfg net state fuel cfg.rangeStart clockUs

def resolveDnsServer (cfg : Config) (mac : Mac) : UInt32 :=
  let byMode :=
    match cfg.dnsMode with
    | .manual =>
      if cfg.dnsManualIp ≠ 0 ∧ cfg.dnsManualIp ≠ cfg.serverIp then cfg.dnsManualIp
      else cfg.serverGateway
    | .auto => if cfg.dnsServerRunning then cfg.serverIp else cfg.serverGateway
  match cfg.staticBindings.find? fun entry ↦ entry.enabled && entry.mac == mac with
  | some entry =>
    if entry.useDns then byMode
    else if cfg.dnsManualIp ≠ 0 then cfg.dnsManualIp else cfg.serverGateway
  | none => byMode

/-- The router option, absent when the client's binding switches it off. -/
def resolveRouter (cfg : Config) (mac : Mac) : Option UInt32 :=
  match cfg.staticBindings.find? fun entry ↦ entry.enabled && entry.mac == mac with
  | some entry => if entry.useGateway then some cfg.serverGateway else none
  | none => some cfg.serverGateway

def removeExpiredLeases (state : State) : State :=
  { state with
    leases := state.leases.filter fun _ lease ↦ currentTimeSec state.clockUs < lease.expiry }

/-- `canAddLeaseEntry`; a full table is purged of expired entries before the answer is no. -/
def canAddLeaseEntry (cfg : Config) (ip : UInt32) (state : State) : Bool × State :=
  if ip ∈ state.leases then (true, state)
  else
    let purged :=
      if cfg.maxLeaseEntriesEffective ≤ state.leases.size then removeExpiredLeases state
      else state
    if purged.leases.size < cfg.maxLeaseEntriesEffective then (true, purged)
    else (false, { purged with leaseLimitRejects := purged.leaseLimitRejects + 1 })

def putLease (state : State) (mac : Mac) (ip : UInt32) (expiry : Nat) (hostname : Bytes) : State :=
  { state with leases := state.leases.insert ip ⟨mac, ip, expiry, hostname⟩ }

def leaseExpiry (cfg : Config) (clockUs : Nat) : Nat :=
  (currentTimeSec clockUs + cfg.leaseTimeSec.toNat) % 0x100000000

def offerExpiry (clockUs : Nat) : Nat := (currentTimeSec clockUs + kOfferHoldSec) % 0x100000000

def addLease (cfg : Config) (mac : Mac) (ip : UInt32) (hostname : Bytes) (state : State) : State :=
  putLease state mac ip (leaseExpiry cfg state.clockUs) hostname

/-- The entry with the name its client now reports, if it reports one. -/
def DhcpLease.rename (lease : DhcpLease) (hostname : Bytes) : DhcpLease :=
  if hostname.isEmpty then lease else { lease with hostname }

@[simp]
theorem DhcpLease.rename_mac (lease : DhcpLease) (hostname : Bytes) :
    (lease.rename hostname).mac = lease.mac := by
  unfold DhcpLease.rename
  split_ifs <;> rfl

@[simp]
theorem DhcpLease.rename_expiry (lease : DhcpLease) (hostname : Bytes) :
    (lease.rename hostname).expiry = lease.expiry := by
  unfold DhcpLease.rename
  split_ifs <;> rfl

/-- The tail of `reserveOffer`: write the reservation over whatever the address holds. -/
def writeReservation (cfg : Config) (mac : Mac) (ip : UInt32) (hostname : Bytes) (state : State) :
    Bool × State :=
  match canAddLeaseEntry cfg ip state with
  | (false, refused) => (false, refused)
  | (true, purged) => (true, putLease purged mac ip (offerExpiry state.clockUs) hostname)

/-- `reserveOffer`. An entry that outlasts the hold is kept whoever owns it; only its host name is
replaced. Everything else is overwritten. -/
def reserveOffer (cfg : Config) (mac : Mac) (ip : UInt32) (hostname : Bytes) (state : State) :
    Bool × State :=
  match state.leases[ip]? with
  | some existing =>
    if offerExpiry state.clockUs < existing.expiry then
      (true, { state with leases := state.leases.insert ip (existing.rename hostname) })
    else writeReservation cfg mac ip hostname state
  | none => writeReservation cfg mac ip hostname state

def ipOption (code : UInt8) (value : UInt32) : Bytes := [code, 4] ++ wordBytes value

def destinationIp (relayIp : UInt32) : UInt32 := if relayIp ≠ 0 then relayIp else kBroadcastIp

def grantOptions (cfg : Config) (msgType : UInt8) (mac : Mac) : Bytes :=
  [kOptMsgType, 1, msgType] ++ ipOption kOptServerId cfg.serverIp ++
    ipOption kOptSubnetMask cfg.serverNetmask ++
    (resolveRouter cfg mac).elim [] (ipOption kOptRouter) ++
    ipOption kOptDnsServer (resolveDnsServer cfg mac) ++
    ipOption kOptLeaseTime (byteSwap cfg.leaseTimeSec) ++ [kOptEnd]

def grantReply (cfg : Config) (msgType : UInt8) (mac : Mac) (xid ip relayIp : UInt32) : Reply where
  msgType := msgType
  destIp := destinationIp relayIp
  xid := xid
  yiaddr := ip
  siaddr := cfg.serverIp
  giaddr := relayIp
  chaddr := mac
  options := grantOptions cfg msgType mac

def offerReply (cfg : Config) : Mac → UInt32 → UInt32 → UInt32 → Reply := grantReply cfg kDhcpOffer

def ackReply (cfg : Config) : Mac → UInt32 → UInt32 → UInt32 → Reply := grantReply cfg kDhcpAck

def nakReply (cfg : Config) (mac : Mac) (xid relayIp : UInt32) : Reply where
  msgType := kDhcpNak
  destIp := destinationIp relayIp
  xid := xid
  yiaddr := 0
  siaddr := 0
  giaddr := relayIp
  chaddr := mac
  options := [kOptMsgType, 1, kDhcpNak] ++ ipOption kOptServerId cfg.serverIp ++ [kOptEnd]

/-- A datagram as the receive loop passes it on: the reused buffer and the length received. -/
structure Datagram where
  buf : Buffer
  len : Nat

/-- The sender's hardware address, the first six bytes of `chaddr`. -/
def Datagram.chaddr (datagram : Datagram) : Mac := Vector.ofFn fun i : Fin 6 ↦ datagram.buf (28 + i)

structure ParsedOptions where
  msgType : UInt8 := 0
  requestedIp : UInt32 := 0
  serverId : UInt32 := 0

/-- The option walk of `handleDhcpMessage`: it ends at the end marker or at the size of the option
field, not at the length of the datagram. Every turn moves at least one byte, so the size of the
field is fuel enough. -/
def walkOptions (options : Buffer) : (fuel offset : Nat) → ParsedOptions → ParsedOptions
  | 0, _, parsed => parsed
  | fuel + 1, offset, parsed =>
    let code := options offset
    if code ≠ kOptEnd ∧ offset < kOptionsBytes then
      if code = kOptPad then walkOptions options fuel (offset + 1) parsed
      else
        let optLen := options (offset + 1)
        let parsed :=
          if code = kOptMsgType ∧ optLen = 1 then { parsed with msgType := options (offset + 2) }
          else if code = kOptReqAddr ∧ optLen = 4 then
            { parsed with requestedIp := readU32 options (offset + 2) }
          else if code = kOptServerId ∧ optLen = 4 then
            { parsed with serverId := readU32 options (offset + 2) }
          else parsed
        walkOptions options fuel (offset + (optLen.toNat + 2)) parsed
    else parsed

/-- A message as the switch of `handleDhcpMessage` reads it. -/
structure Message where
  msgType : UInt8
  chaddr : Mac
  xid : UInt32
  ciaddr : UInt32
  giaddr : UInt32
  requestedIp : UInt32
  serverId : UInt32
  clientName : Bytes

def parseMessage (datagram : Datagram) : Option Message :=
  if datagram.len < kMinMsgSize then none
  else if byteSwap (readU32 datagram.buf 236) ≠ kMagicCookie then none
  else
    let options : Buffer := fun i ↦ datagram.buf (kOptionsOffset + i)
    let parsed := walkOptions options kOptionsBytes 0 {}
    if parsed.msgType = 0 then none
    else some {
      msgType := parsed.msgType
      chaddr := datagram.chaddr
      xid := readU32 datagram.buf 4
      ciaddr := readU32 datagram.buf 12
      giaddr := readU32 datagram.buf 24
      requestedIp := parsed.requestedIp
      serverId := parsed.serverId
      clientName :=
        if kOptionsOffset < datagram.len then
          ClientName.fromOptions options (datagram.len - kOptionsOffset)
        else [] }

/-- What reaches the switch: a well-formed message of a client the allow-list admits. -/
def admittedMessage (cfg : Config) (datagram : Datagram) : Option Message :=
  (parseMessage datagram).filter fun message ↦
    AllowedList.isClientAllowed message.chaddr cfg.allowOnly cfg.allowedList cfg.allowedStaticRefs

/-- The address `sendDhcpOffer` settles on, and when. A requested address is honoured when it is
the client's own binding, or in the range, not refused and silent; otherwise `selectIp` decides. -/
def chooseOfferIp (fuel : Nat) (cfg : Config) (net : Net) (mac : Mac) (requestedIp : UInt32)
    (state : State) : Option (UInt32 × Nat) :=
  let fixed := isStaticBindingForMac cfg mac requestedIp
  if requestedIp ≠ 0 ∧ (isIpInRange cfg requestedIp ∨ fixed) then
    if fixed then some (requestedIp, state.clockUs)
    else if addressDeclined state requestedIp state.clockUs then
      selectIp fuel cfg net mac state state.clockUs
    else
      let probe := probeIp net requestedIp state.clockUs
      if probe.inUse then selectIp fuel cfg net mac state probe.clockUs
      else some (requestedIp, probe.clockUs)
  else selectIp fuel cfg net mac state state.clockUs

def sendDhcpOffer (fuel : Nat) (cfg : Config) (net : Net) (message : Message) (state : State) :
    Option (State × List Reply) := do
  let (offerIp, clockUs) ← chooseOfferIp fuel cfg net message.chaddr message.requestedIp state
  let state := { state with clockUs }
  if offerIp = 0 then return (state, [])
  match reserveOffer cfg message.chaddr offerIp message.clientName state with
  | (false, refused) => return (refused, [])
  | (true, reserved) =>
    return (reserved, [offerReply cfg message.chaddr message.xid offerIp message.giaddr])

/-- Whether a REQUEST of `assignIp` is acknowledged, and when that is known. -/
def decideRequest (cfg : Config) (net : Net) (mac : Mac) (assignIp : UInt32) (state : State) : Bool × Nat :=
  if isStaticBindingForMac cfg mac assignIp then (true, state.clockUs)
  else
    match state.leases[assignIp]? with
    | some lease => (lease.mac == mac, state.clockUs)
    | none =>
      if addressDeclined state assignIp state.clockUs then (false, state.clockUs)
      else
        let probe := probeIp net assignIp state.clockUs
        (!probe.inUse || probe.ownerMac == mac, probe.clockUs)

def assignedIp (message : Message) : UInt32 :=
  if message.requestedIp ≠ 0 then message.requestedIp else message.ciaddr

def handleRequest (cfg : Config) (net : Net) (message : Message) (state : State) : State × List Reply :=
  let mac := message.chaddr
  let assignIp := assignedIp message
  let nak := [nakReply cfg mac message.xid message.giaddr]
  if message.serverId = 0 ∨ message.serverId = cfg.serverIp then
    if assignIp ≠ 0 ∧ assignIp ≠ cfg.serverIp ∧
        (isIpInRange cfg assignIp ∨ isStaticBindingForMac cfg mac assignIp) then
      match decideRequest cfg net mac assignIp state with
      | (false, clockUs) => ({ state with clockUs }, nak)
      | (true, clockUs) =>
        match canAddLeaseEntry cfg assignIp { state with clockUs } with
        | (false, refused) => (refused, nak)
        | (true, purged) =>
          (addLease cfg mac assignIp message.clientName purged,
            [ackReply cfg mac message.xid assignIp message.giaddr])
    else (state, nak)
  else (state, [])

/-- A RELEASE erases the entry of `ciaddr`, whoever it belongs to. -/
def handleRelease (message : Message) (state : State) : State :=
  { state with leases := state.leases.erase message.ciaddr }

def handleDecline (message : Message) (state : State) : State :=
  let leases :=
    match state.leases[message.requestedIp]? with
    | some lease =>
      if lease.mac = message.chaddr then state.leases.erase message.requestedIp else state.leases
    | none => state.leases
  { state with
    leases
    declined := (state.declined.add message.requestedIp (currentTimeMs state.clockUs)).1 }

/-- The switch of `handleDhcpMessage`. -/
def dispatch (fuel : Nat) (cfg : Config) (net : Net) (message : Message) (state : State) :
    Option (State × List Reply) :=
  if message.msgType = kDhcpDiscover then sendDhcpOffer fuel cfg net message state
  else if message.msgType = kDhcpRequest then some (handleRequest cfg net message state)
  else if message.msgType = kDhcpRelease then some (handleRelease message state, [])
  else if message.msgType = kDhcpDecline then some (handleDecline message state, [])
  else some (state, [])

def handleDhcpMessage (fuel : Nat) (cfg : Config) (net : Net) (datagram : Datagram)
    (state : State) : Option (State × List Reply) :=
  match admittedMessage cfg datagram with
  | none => some (state, [])
  | some message => dispatch fuel cfg net message state

end DhcpServer.Dhcp
