import DhcpServer.Dhcp.Ownership

/-!
# One holder at a time

Over a whole run: an address acknowledged to a client is acknowledged to nobody else before the
lease time is over, unless the client gave it back. The table alone carries the argument. Once the
ACK is out the entry is the client's and lasts at least until the deadline (`HeldUntil`), and every
step that is neither a foreign RELEASE nor a take-over near expiry keeps it so.
-/

namespace DhcpServer.Dhcp

open Library List Option

/-- No enabled binding, of whichever client, is on the address. -/
def Unbound (cfg : Config) (ip : UInt32) : Prop :=
  ∀ entry ∈ cfg.staticBindings, entry.enabled = true → entry.ip ≠ ip

instance (cfg : Config) (ip : UInt32) : Decidable (Unbound cfg ip) := by
  unfold Unbound
  infer_instance

theorem Unbound.isStaticBindingForMac {cfg : Config} {ip : UInt32} (hunbound : Unbound cfg ip)
    (mac : Mac) : isStaticBindingForMac cfg mac ip = false := by
  simp only [Dhcp.isStaticBindingForMac, List.any_eq_false, Bool.and_eq_true, beq_iff_eq, not_and]
  intro entry hentry henabled
  exact absurd henabled.2 (hunbound entry hentry henabled.1)

/-- The server acknowledged `ip` to `mac`. -/
def Acks (event : Event) (ip : UInt32) (mac : Mac) : Prop :=
  ∃ reply ∈ event.replies, reply.msgType = kDhcpAck ∧ reply.yiaddr = ip ∧ reply.chaddr = mac

/-- The server received from `mac` a RELEASE or a DECLINE of `ip`. -/
def GivesUp (event : Event) (ip : UInt32) (mac : Mac) : Prop :=
  ∃ net datagram message, event.input = .receive net datagram ∧
    parseMessage datagram = some message ∧ message.chaddr = mac ∧
    (message.msgType = kDhcpRelease ∧ message.ciaddr = ip ∨
      message.msgType = kDhcpDecline ∧ message.requestedIp = ip)

/-- Two clients are acknowledged one unbound address within the lease time only if the first gave
it up in between. -/
def AckExclusive (cfg : Config) (events : List Event) : Prop :=
  ∀ before first between second after (ip : UInt32) (mac mac' : Mac),
    events = before ++ first :: (between ++ second :: after) →
    Unbound cfg ip → Acks first ip mac → Acks second ip mac' → mac ≠ mac' →
    second.timeSec < first.timeSec + cfg.leaseTimeSec.toNat →
    ∃ event ∈ between, GivesUp event ip mac

/-- A step that takes no entry in force away from another client. -/
structure CarefulStep (cfg : Config) (state : State) (event : Event) (state' : State) : Prop where
  step : Step cfg state event state'
  careful : ∀ net datagram message, event.input = .receive net datagram →
    admittedMessage cfg datagram = some message →
    ¬ ReleasesForeign cfg message state ∧ ¬ TakesOverForeign cfg net message state

/-- Until `deadline` the entry of `ip` is there, belongs to `mac` and lasts that long. -/
structure HeldUntil (cfg : Config) (ip : UInt32) (mac : Mac) (deadline : Nat) (state : State) : Prop where
  recent : deadline ≤ state.clockUs / 1000000 + cfg.leaseTimeSec.toNat
  entry : state.clockUs / 1000000 < deadline →
    ∃ lease, state.leases[ip]? = some lease ∧ lease.mac = mac ∧ deadline ≤ lease.expiry

variable {cfg : Config} {net : Net} {message : Message} {state state' : State} {event : Event}
  {ip : UInt32} {mac : Mac} {deadline : Nat}

theorem currentTimeSec_of_lt {clockUs : Nat} (hlt : clockUs / 1000000 < 0x100000000) :
    currentTimeSec clockUs = clockUs / 1000000 :=
  Nat.mod_eq_of_lt hlt

theorem leaseExpiry_of_lt {clockUs : Nat}
    (hlt : clockUs / 1000000 + cfg.leaseTimeSec.toNat < 0x100000000) :
    leaseExpiry cfg clockUs = clockUs / 1000000 + cfg.leaseTimeSec.toNat := by
  rw [leaseExpiry, currentTimeSec_of_lt (by omega), Nat.mod_eq_of_lt hlt]

/-- A message of whoever it is leaves the holder's entry there, the holder's, and as long, unless
the holder gives it up. -/
theorem EntryStep.keeps_holder {after : Nat} {lease : DhcpLease} {new : Option DhcpLease}
    (hstep : EntryStep cfg net message state after ip (some lease) new)
    (hlease : state.leases[ip]? = some lease)
    (hunbound : Unbound cfg ip) (hlive : currentTimeSec after < lease.expiry)
    (hrelease : message.msgType = kDhcpRelease → message.ciaddr = ip → lease.mac ≠ message.chaddr → False)
    (htake : ¬ TakesOverForeign cfg net message state)
    (hgive : lease.mac = message.chaddr → ¬ (message.msgType = kDhcpRelease ∧ message.ciaddr = ip ∨
        message.msgType = kDhcpDecline ∧ message.requestedIp = ip)) :
    ∃ kept, new = some kept ∧ kept.mac = lease.mac ∧
      (lease.expiry ≤ kept.expiry ∨ kept.expiry = leaseExpiry cfg after) := by
  have hfixed := hunbound.isStaticBindingForMac message.chaddr
  cases hstep with
  | same => exact ⟨lease, rfl, rfl, .inl le_rfl⟩
  | expired old hold hexpired =>
    cases hold
    exact absurd hlive (not_lt.mpr hexpired)
  | released htype hip =>
    by_cases hmac : lease.mac = message.chaddr
    · exact absurd (.inl ⟨htype, hip⟩) (hgive hmac)
    · exact (hrelease htype hip hmac).elim
  | declined old htype hip hold hmac =>
    cases hold
    exact absurd (.inr ⟨htype, hip⟩) (hgive hmac)
  | renamed old _ _ _ hold _ =>
    cases hold
    exact ⟨_, rfl, lease.rename_mac _, .inl (le_of_eq (lease.rename_expiry _).symm)⟩
  | reserved htype hip hsource hshort =>
    refine ⟨_, rfl, ?_, .inl (hshort lease rfl)⟩
    obtain ⟨hhonoured, rfl, hprobe⟩ | howner := hsource.owner hip hfixed
    · by_contra hmac
      refine htake ⟨htype, hhonoured, lease, hlease, Ne.symm hmac, ?_, ?_⟩
      · exact hprobe ▸ hlive
      · exact hprobe ▸ hshort lease rfl
    · exact (howner lease hlease).symm
  | leased _ _ hwhy =>
    refine ⟨_, rfl, ?_, .inr rfl⟩
    exact ((hwhy.resolve_left (by simp [hfixed])) lease rfl).symm

theorem CarefulStep.heldUntil (hstep : CarefulStep cfg state event state')
    (hunbound : Unbound cfg ip) (hgive : ¬ GivesUp event ip mac)
    (hclock : state'.clockUs / 1000000 + cfg.leaseTimeSec.toNat < 0x100000000)
    (hheld : HeldUntil cfg ip mac deadline state) : HeldUntil cfg ip mac deadline state' := by
  have hdiv : state.clockUs / 1000000 ≤ state'.clockUs / 1000000 :=
    Nat.div_le_div_right hstep.step.clockUs_le
  have hnow : currentTimeSec state'.clockUs = state'.clockUs / 1000000 := currentTimeSec_of_lt (by omega)
  have hrecent := hheld.recent
  refine ⟨by omega, fun hbefore ↦ ?_⟩
  obtain ⟨lease, hlease, hmac, hlong⟩ := hheld.entry (by omega)
  obtain hsame | ⟨hnone, old, hold, hexpired⟩ | ⟨net, datagram, message, hinput, hmessage, hentry⟩ :=
    hstep.step.entry ip
  · exact ⟨lease, hsame.trans hlease, hmac, hlong⟩
  · obtain rfl := mem_unique hlease hold
    omega
  · obtain ⟨hrelease, htake⟩ := hstep.careful net datagram message hinput hmessage
    rw [hlease] at hentry
    have hnothing : lease.mac = message.chaddr → ¬ (message.msgType = kDhcpRelease ∧ message.ciaddr = ip ∨
          message.msgType = kDhcpDecline ∧ message.requestedIp = ip) := by
      intro hown hgives
      have hparse : parseMessage datagram = some message := (filter_eq_some_iff.mp hmessage).1
      exact hgive ⟨net, datagram, message, hinput, hparse, hown.symm.trans hmac, hgives⟩
    have hforeign : message.msgType = kDhcpRelease → message.ciaddr = ip →
        lease.mac ≠ message.chaddr → False := by
      rintro htype rfl hother
      have hearlier : currentTimeSec state.clockUs = state.clockUs / 1000000 :=
        currentTimeSec_of_lt (by omega)
      exact hrelease ⟨htype, hunbound.isStaticBindingForMac _, lease, hlease, hother, by omega⟩
    obtain ⟨kept, hkept, hkeptMac, hkeptLong⟩ :=
      hentry.keeps_holder hlease hunbound (by omega) hforeign htake hnothing
    refine ⟨kept, hkept, hkeptMac.trans hmac, ?_⟩
    have hrenewed := leaseExpiry_of_lt hclock
    omega

theorem heldUntil_of_run {events : List Event} (hrun : Run (CarefulStep cfg) state events state')
    (hunbound : Unbound cfg ip) (hgive : ∀ event ∈ events, ¬ GivesUp event ip mac)
    (hclock : state'.clockUs / 1000000 + cfg.leaseTimeSec.toNat < 0x100000000)
    (hheld : HeldUntil cfg ip mac deadline state) : HeldUntil cfg ip mac deadline state' := by
  induction hrun with
  | nil => exact hheld
  | @cons first middle last event events hstep htail ih =>
    have hlater : middle.clockUs / 1000000 ≤ last.clockUs / 1000000 :=
      Nat.div_le_div_right (run_clockUs_le (htail.mono fun _ _ _ h ↦ h.step))
    have hmiddle : HeldUntil cfg ip mac deadline middle :=
      hstep.heldUntil hunbound (hgive event mem_cons_self) (by omega) hheld
    exact ih (fun later hmem ↦ hgive later (mem_cons_of_mem event hmem)) hclock hmiddle

theorem Step.acks (hstep : Step cfg state event state') (hunbound : Unbound cfg ip)
    (hacks : Acks event ip mac) :
    event.timeSec = state'.clockUs / 1000000 ∧ (∀ lease, state.leases[ip]? = some lease → lease.mac = mac) ∧
      ∃ lease, state'.leases[ip]? = some lease ∧ lease.mac = mac ∧
        lease.expiry = leaseExpiry cfg state'.clockUs := by
  obtain ⟨reply, hreply, htype, rfl, rfl⟩ := hacks
  cases hstep with
  | tick us => simp at hreply
  | expire => simp at hreply
  | @receive fuel net datagram _ _ replies hhandle =>
    unfold handleDhcpMessage at hhandle
    split at hhandle
    · cases hhandle
      simp at hreply
    · obtain ⟨-, hchaddr, -, hwhy, hlease⟩ := dispatch_ack hhandle hreply htype
      have hfixed := hunbound.isStaticBindingForMac reply.chaddr
      rw [← hchaddr] at hwhy hlease
      exact ⟨rfl, hwhy.resolve_left (by simp [hfixed]), _, hlease, rfl, rfl⟩

/-- **ACK exclusivity.** In a run whose steps never take an entry in force from another client, an
address is acknowledged to a second client within the lease time only if the first gave it up. -/
theorem ackExclusive_of_run {clockUs : Nat} {events : List Event} {last : State}
    (hrun : Run (CarefulStep cfg) (.start clockUs) events last)
    (hclock : last.clockUs / 1000000 + cfg.leaseTimeSec.toNat < 0x100000000) :
    AckExclusive cfg events := by
  rintro before first between second after ip mac mac' rfl hunbound hfirst hsecond hmac hsoon
  by_contra hnobody
  have hgive : ∀ event ∈ between, ¬ GivesUp event ip mac := by simpa using hnobody
  -- the run, cut at the two ACKs
  obtain ⟨acking, -, hrest⟩ := hrun.split
  obtain ⟨acked, hfirstStep, hrest⟩ := hrest.uncons
  obtain ⟨asking, hbetween, hrest⟩ := hrest.split
  obtain ⟨answered, hsecondStep, hrest⟩ := hrest.uncons
  have hbetweenLe := run_clockUs_le (hbetween.mono fun _ _ _ h ↦ h.step)
  have hsecondLe := hsecondStep.step.clockUs_le
  have hrestLe := run_clockUs_le (hrest.mono fun _ _ _ h ↦ h.step)
  have hackedDiv : acked.clockUs / 1000000 ≤ asking.clockUs / 1000000 := Nat.div_le_div_right hbetweenLe
  have haskingDiv : asking.clockUs / 1000000 ≤ answered.clockUs / 1000000 := Nat.div_le_div_right hsecondLe
  have hansweredDiv : answered.clockUs / 1000000 ≤ last.clockUs / 1000000 := Nat.div_le_div_right hrestLe
  obtain ⟨hfirstTime, -, lease, hlease, hleaseMac, hexpiry⟩ := hfirstStep.step.acks hunbound hfirst
  obtain ⟨hsecondTime, howner, -⟩ := hsecondStep.step.acks hunbound hsecond
  have hheld : HeldUntil cfg ip mac (acked.clockUs / 1000000 + cfg.leaseTimeSec.toNat) acked := by
    refine ⟨le_rfl, fun _ ↦ ⟨lease, hlease, hleaseMac, ?_⟩⟩
    rw [hexpiry, leaseExpiry_of_lt (by omega)]
  have hstill := heldUntil_of_run hbetween hunbound hgive (by omega) hheld
  obtain ⟨kept, hkept, hkeptMac, -⟩ := hstill.entry (by omega)
  exact hmac (hkeptMac.symm.trans (howner kept hkept))

/-- The first client leases 192.168.1.100 for a day. In the last minute of it the second asks for
the address in a DISCOVER and then in a REQUEST. -/
def takeOver : List Input :=
  [asking kDhcpRequest macA (dotted 192 168 1 100), .tick 86350000000,
    asking kDhcpDiscover macB (dotted 192 168 1 100),
    asking kDhcpRequest macB (dotted 192 168 1 100)]

/-- Both clients are acknowledged the address, 86350 seconds apart, and nothing was given up. -/
theorem ackExclusive_fails : ∃ events last, Run (Step homeConfig) (.start 0) events last ∧
      last.clockUs / 1000000 + homeConfig.leaseTimeSec.toNat < 0x100000000 ∧
      ¬ AckExclusive homeConfig events := by
  have hreplay : ((performAll 1 homeConfig (.start 0) takeOver).any fun result ↦
      result.1.clockUs == 86350000000 &&
        result.2.map Event.timeSec == [0, 86350, 86350, 86350] &&
        result.2.map Event.replies == [[ackReply homeConfig macA 0 (dotted 192 168 1 100) 0], [],
          [offerReply homeConfig macB 0 (dotted 192 168 1 100) 0],
          [ackReply homeConfig macB 0 (dotted 192 168 1 100) 0]]) = true := by
    decide +kernel
  simp only [Option.any_eq_true, Bool.and_eq_true, beq_iff_eq] at hreplay
  obtain ⟨⟨last, events⟩, hperform, ⟨hclock, htimes⟩, hreplies⟩ := hreplay
  have hinputs := performAll_inputs hperform
  refine ⟨events, last, run_of_performAll hperform, ?_, fun hexclusive ↦ ?_⟩
  · rw [show last.clockUs = 86350000000 from hclock]
    decide
  · obtain ⟨first, tick, discover, second, rfl⟩ :
        ∃ first tick discover second, events = [first, tick, discover, second] := by
      match events, hinputs with
      | [first, tick, discover, second], _ => exact ⟨first, tick, discover, second, rfl⟩
    simp only [map_cons, map_nil, List.cons.injEq, takeOver] at htimes hreplies hinputs
    have hfirst : Acks first (dotted 192 168 1 100) macA := by
      simp [Acks, hreplies, ackReply, grantReply]
    have hsecond : Acks second (dotted 192 168 1 100) macB := by
      simp [Acks, hreplies, ackReply, grantReply]
    have hsoon : second.timeSec < first.timeSec + homeConfig.leaseTimeSec.toNat := by
      rw [htimes.1, htimes.2.2.2.1]
      decide
    obtain ⟨event, hevent, net, datagram, message, hinput, hparse, -, hgives⟩ :=
      hexclusive [] first [tick, discover] second [] _ _ _ rfl (by decide) hfirst hsecond
        (by decide) hsoon
    have hdiscovers : ∀ message, parseMessage (clientDatagram kDhcpDiscover macB 0
        (ipOption kOptReqAddr (dotted 192 168 1 100))) = some message →
        message.msgType = kDhcpDiscover := by
      decide +kernel
    rcases mem_cons.mp hevent with rfl | hevent
    · rw [hinputs.2.1] at hinput
      exact Input.noConfusion hinput
    · obtain rfl := mem_singleton.mp hevent
      rw [hinputs.2.2.1, asking, Input.receive.injEq] at hinput
      rw [← hinput.2] at hparse
      rw [hdiscovers message hparse] at hgives
      exact hgives.elim (fun h ↦ absurd h.1 (by decide)) (fun h ↦ absurd h.1 (by decide))

theorem carefulStep_of_request {fuel : Nat} {net : Net} {datagram : Datagram}
    (hperform : perform fuel cfg state (.receive net datagram) = some (state', event))
    (hrequest : ∀ message, admittedMessage cfg datagram = some message →
      message.msgType = kDhcpRequest) : CarefulStep cfg state event state' := by
  refine ⟨step_of_perform hperform, fun net' datagram' message hinput hmessage ↦ ?_⟩
  rw [perform_input hperform, Input.receive.injEq] at hinput
  have htype := hrequest message (hinput.2 ▸ hmessage)
  constructor
  · rintro ⟨hrelease, -⟩
    exact absurd (htype.symm.trans hrelease) (by decide)
  · rintro ⟨hdiscover, -⟩
    exact absurd (htype.symm.trans hdiscover) (by decide)

def releaseOwn : Datagram := clientDatagram kDhcpRelease macA (dotted 192 168 1 100) []

/-- The address changes hands lawfully: leased, released by its holder, leased again. -/
theorem ackExclusive_of_run_released : ∃ first release second last,
      Run (CarefulStep homeConfig) (.start 0) [first, release, second] last ∧
      last.clockUs / 1000000 + homeConfig.leaseTimeSec.toNat < 0x100000000 ∧
      Acks first (dotted 192 168 1 100) macA ∧ Acks second (dotted 192 168 1 100) macB ∧
      AckExclusive homeConfig [first, release, second] := by
  let request (mac : Mac) := asking kDhcpRequest mac (dotted 192 168 1 100)
  have hreplay : ((perform 1 homeConfig (.start 0) (request macA)).any fun one ↦
      (perform 1 homeConfig one.1 (.receive silentNet releaseOwn)).any fun two ↦
        (perform 1 homeConfig two.1 (request macB)).any fun three ↦
          one.1.leases[dotted 192 168 1 100]? == some ⟨macA, dotted 192 168 1 100, 86400, []⟩ &&
          one.2.replies == [ackReply homeConfig macA 0 (dotted 192 168 1 100) 0] &&
          three.2.replies == [ackReply homeConfig macB 0 (dotted 192 168 1 100) 0] &&
          three.1.clockUs == 0) = true := by
    decide +kernel
  simp only [Option.any_eq_true, Bool.and_eq_true, beq_iff_eq] at hreplay
  obtain ⟨⟨one, first⟩, hone, ⟨two, release⟩, htwo, ⟨three, second⟩, hthree,
    ⟨⟨hlease, hack⟩, hagain⟩, hclock⟩ := hreplay
  have hrequestA : ∀ message, admittedMessage homeConfig
      (clientDatagram kDhcpRequest macA 0 (ipOption kOptReqAddr (dotted 192 168 1 100))) =
        some message → message.msgType = kDhcpRequest := by
    decide +kernel
  have hrequestB : ∀ message, admittedMessage homeConfig
      (clientDatagram kDhcpRequest macB 0 (ipOption kOptReqAddr (dotted 192 168 1 100))) =
        some message → message.msgType = kDhcpRequest := by
    decide +kernel
  have hreleased : ∀ message, admittedMessage homeConfig releaseOwn = some message →
      message.msgType = kDhcpRelease ∧ message.ciaddr = dotted 192 168 1 100 ∧ message.chaddr = macA := by
    decide +kernel
  have hcareful : CarefulStep homeConfig one release two := by
    refine ⟨step_of_perform htwo, fun net datagram message hinput hmessage ↦ ?_⟩
    rw [perform_input htwo, Input.receive.injEq] at hinput
    obtain ⟨htype, hciaddr, hchaddr⟩ := hreleased message (hinput.2 ▸ hmessage)
    constructor
    · rintro ⟨-, -, lease, hheld, hother, -⟩
      rw [hciaddr] at hheld
      obtain rfl := mem_unique hlease hheld
      exact hother hchaddr.symm
    · rintro ⟨hdiscover, -⟩
      exact absurd (htype.symm.trans hdiscover) (by decide)
  have hrun : Run (CarefulStep homeConfig) (.start 0) [first, release, second] three :=
    .cons (carefulStep_of_request hone hrequestA) (.cons hcareful
      (.cons (carefulStep_of_request hthree hrequestB) (.nil three)))
  have hearly : three.clockUs / 1000000 + homeConfig.leaseTimeSec.toNat < 0x100000000 := by
    rw [show three.clockUs = 0 from hclock]
    decide
  refine ⟨first, release, second, three, hrun, hearly, ?_, ?_, ackExclusive_of_run hrun hearly⟩
  · exact ⟨_, by rw [hack]; exact mem_singleton_self _, rfl, rfl, rfl⟩
  · exact ⟨_, by rw [hagain]; exact mem_singleton_self _, rfl, rfl, rfl⟩

/-! ## What has been promised -/

def Offers (event : Event) (ip : UInt32) (mac : Mac) : Prop :=
  ∃ reply ∈ event.replies, reply.msgType = kDhcpOffer ∧ reply.yiaddr = ip ∧ reply.chaddr = mac

/-- The address is acknowledged for the lease time, or offered for the hold where nobody else has an entry. -/
def Promises (cfg : Config) (state : State) (event : Event) (ip : UInt32) (mac : Mac) (period : Nat) : Prop :=
  Acks event ip mac ∧ period = cfg.leaseTimeSec.toNat ∨
    Offers event ip mac ∧ (∀ lease, state.leases[ip]? = some lease → lease.mac = mac) ∧
      period = min kOfferHoldSec cfg.leaseTimeSec.toNat

/-- A client that has been promised an unbound address of the range, and does not give it up, is acknowledged the
address whenever it requests it in time, whatever careful steps come in between. -/
def PromisesKept (cfg : Config) : Prop :=
  ∀ state first promised between asked second answered net datagram message period,
    Step cfg state first promised → Run (CarefulStep cfg) promised between asked →
    Step cfg asked second answered →
    answered.clockUs / 1000000 + cfg.leaseTimeSec.toNat + kOfferHoldSec < 0x100000000 →
    second.input = .receive net datagram → admittedMessage cfg datagram = some message →
    message.msgType = kDhcpRequest → message.serverId = 0 ∨ message.serverId = cfg.serverIp →
    assignedIp message ≠ 0 → isIpInRange cfg (assignedIp message) → Unbound cfg (assignedIp message) →
    Promises cfg state first (assignedIp message) message.chaddr period →
    (∀ event ∈ between, ¬ GivesUp event (assignedIp message) message.chaddr) →
    second.timeSec < first.timeSec + period →
    second.replies = [ackReply cfg message.chaddr message.xid (assignedIp message) message.giaddr]

theorem Step.offers (hstep : Step cfg state event state') (hoffers : Offers event ip mac)
    (howner : ∀ lease, state.leases[ip]? = some lease → lease.mac = mac) :
    event.timeSec = state'.clockUs / 1000000 ∧ ∃ lease, state'.leases[ip]? = some lease ∧ lease.mac = mac ∧
      offerExpiry state'.clockUs ≤ lease.expiry := by
  obtain ⟨reply, hreply, htype, rfl, rfl⟩ := hoffers
  cases hstep with
  | tick us => simp at hreply
  | expire => simp at hreply
  | @receive fuel net datagram _ _ replies hhandle =>
    unfold handleDhcpMessage at hhandle
    split at hhandle
    · cases hhandle
      simp at hreply
    · obtain ⟨-, hchaddr, -, -, hreservation⟩ := dispatch_offer hhandle hreply htype
      refine ⟨rfl, ?_⟩
      cases hreservation with
      | kept lease hlease hlong hlookup =>
        refine ⟨_, (hlookup _).trans (if_pos rfl), ?_, ?_⟩
        · rw [DhcpLease.rename_mac, howner lease hlease]
        · rw [DhcpLease.rename_expiry]
          exact hlong.le
      | written purged _ _ hlookup => exact ⟨_, (hlookup _).trans (if_pos rfl), hchaddr.symm, le_rfl⟩

theorem Promises.heldUntil {period : Nat} (hpromises : Promises cfg state event ip mac period)
    (hstep : Step cfg state event state') (hunbound : Unbound cfg ip)
    (hclock : state'.clockUs / 1000000 + cfg.leaseTimeSec.toNat + kOfferHoldSec < 0x100000000) :
    HeldUntil cfg ip mac (event.timeSec + period) state' := by
  obtain ⟨hacks, rfl⟩ | ⟨hoffers, howner, rfl⟩ := hpromises
  · obtain ⟨htime, -, lease, hlease, hmac, hexpiry⟩ := hstep.acks hunbound hacks
    rw [leaseExpiry_of_lt (by omega)] at hexpiry
    exact ⟨by omega, fun _ ↦ ⟨lease, hlease, hmac, by omega⟩⟩
  · obtain ⟨htime, lease, hlease, hmac, hexpiry⟩ := hstep.offers hoffers howner
    rw [offerExpiry, currentTimeSec_of_lt (by omega), Nat.mod_eq_of_lt (by omega)] at hexpiry
    exact ⟨by omega, fun _ ↦ ⟨lease, hlease, hmac, by omega⟩⟩

theorem handleRequest_held (net : Net) {lease : DhcpLease}
    (hserver : message.serverId = 0 ∨ message.serverId = cfg.serverIp) (hzero : assignedIp message ≠ 0)
    (hrange : isIpInRange cfg (assignedIp message)) (hunbound : Unbound cfg (assignedIp message))
    (hlease : state.leases[assignedIp message]? = some lease) (hmac : lease.mac = message.chaddr) :
    (handleRequest cfg net message state).2 =
      [ackReply cfg message.chaddr message.xid (assignedIp message) message.giaddr] := by
  have hown : assignedIp message ≠ cfg.serverIp := by
    intro hsame
    rw [isIpInRange, if_pos hsame] at hrange
    cases hrange
  have hmem : assignedIp message ∈ state.leases :=
    Std.TreeMap.mem_iff_isSome_getElem?.mpr (by rw [hlease]; rfl)
  have hdecide : decideRequest cfg net message.chaddr (assignedIp message) state = (true, state.clockUs) := by
    simp [decideRequest, hunbound.isStaticBindingForMac, hlease, hmac]
  simp [handleRequest, hserver, hzero, hown, hrange, hdecide, canAddLeaseEntry, hmem]

theorem promises_are_kept (cfg : Config) : PromisesKept cfg := by
  intro state first promised between asked second answered net datagram message period hfirst hbetween hsecond
    hclock hinput hmessage htype hserver hzero hrange hunbound hpromises hgive hsoon
  have hdiv {early late : Nat} (hle : early ≤ late) : early / 1000000 ≤ late / 1000000 := Nat.div_le_div_right hle
  have hbetweenLe := hdiv (run_clockUs_le (hbetween.mono fun _ _ _ h ↦ h.step))
  have hsecondLe := hdiv hsecond.clockUs_le
  have hheld := hpromises.heldUntil hfirst hunbound (by omega)
  have hstill := heldUntil_of_run hbetween hunbound hgive (by omega) hheld
  cases hsecond with
  | tick us => cases hinput
  | expire => cases hinput
  | receive hhandle =>
    cases hinput
    dsimp only at hsoon
    obtain ⟨lease, hlease, hmac, -⟩ := hstill.entry (by omega)
    rw [handleDhcpMessage_eq hmessage, dispatch, if_neg (by rw [htype]; decide), if_pos htype] at hhandle
    have hreplies := handleRequest_held net hserver hzero hrange hunbound hlease hmac
    rwa [Option.some.inj hhandle] at hreplies

end DhcpServer.Dhcp
