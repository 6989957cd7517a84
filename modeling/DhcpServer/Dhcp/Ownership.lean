import DhcpServer.Dhcp.Runs

/-!
# Whose address is it

What one message may do to addresses of other clients. Two paths of the server do not look at the
owner of an entry: a DISCOVER that asks for an address goes straight to `reserveOffer`, and a
RELEASE erases whatever `ciaddr` names. Both laws below hold exactly off these paths.
-/

namespace DhcpServer.Dhcp

open Library Option

variable {cfg : Config} {net : Net} {datagram : Datagram} {message : Message} {fuel : Nat}
  {state state' : State} {replies : List Reply} {ip : UInt32}

theorem handleDhcpMessage_eq (hmessage : admittedMessage cfg datagram = some message) :
    handleDhcpMessage fuel cfg net datagram state = dispatch fuel cfg net message state := by
  simp [handleDhcpMessage, hmessage]

theorem handleDhcpMessage_none (hmessage : admittedMessage cfg datagram = none)
    (hhandle : handleDhcpMessage fuel cfg net datagram state = some (state', replies)) :
    state' = state ∧ replies = [] := by
  simp only [handleDhcpMessage, hmessage, Option.some.injEq, Prod.mk.injEq] at hhandle
  exact ⟨hhandle.1.symm, hhandle.2.symm⟩

theorem admittedMessage_chaddr (hmessage : admittedMessage cfg datagram = some message) :
    message.chaddr = datagram.chaddr := by
  have hparse : parseMessage datagram = some message := (filter_eq_some_iff.mp hmessage).1
  unfold parseMessage at hparse
  dsimp only at hparse
  split_ifs at hparse
  all_goals
    cases hparse
    rfl

/-- Every OFFER sent is of an address nobody else held, and its entry is the client's afterwards;
a client's own binding is left out. -/
def OfferExclusive (cfg : Config) (state state' : State) (replies : List Reply) : Prop :=
  ∀ reply ∈ replies, reply.msgType = kDhcpOffer →
    isStaticBindingForMac cfg reply.chaddr reply.yiaddr = false →
    (∀ lease, state.leases[reply.yiaddr]? = some lease →
      currentTimeSec state.clockUs < lease.expiry → lease.mac = reply.chaddr) ∧
    ∃ lease, state'.leases[reply.yiaddr]? = some lease ∧ lease.mac = reply.chaddr

/-- The DISCOVER is granted the address it asks for although another client has an entry there
that is in force, or that `reserveOffer` will keep. -/
def AsksForHeldAddress (cfg : Config) (net : Net) (message : Message) (state : State) : Prop :=
  message.msgType = kDhcpDiscover ∧ Honoured cfg net message.chaddr message.requestedIp state ∧
    ∃ lease, state.leases[message.requestedIp]? = some lease ∧ lease.mac ≠ message.chaddr ∧
      (currentTimeSec state.clockUs < lease.expiry ∨
        offerExpiry (probeIp net message.requestedIp state.clockUs).clockUs < lease.expiry)

theorem OfferSource.owner {mac : Mac} {requestedIp : UInt32} {after : Nat}
    (hsource : OfferSource cfg net mac requestedIp state ip after) (hip : ip ≠ 0)
    (hfixed : isStaticBindingForMac cfg mac ip = false) :
    (Honoured cfg net mac requestedIp state ∧ ip = requestedIp ∧
        after = (probeIp net requestedIp state.clockUs).clockUs) ∨
      ∀ lease, state.leases[ip]? = some lease → lease.mac = mac := by
  have hfree (hnone : ip ∉ state.leases) :
      ∀ lease, state.leases[ip]? = some lease → lease.mac = mac := by
    intro lease hlease
    exact absurd (Std.TreeMap.mem_iff_isSome_getElem?.mpr (by simp [hlease])) hnone
  cases hsource with
  | fixed h => simp [h] at hfixed
  | requested h => exact .inl ⟨h, rfl, rfl⟩
  | binding h _ _ => simp [h] at hfixed
  | own lease hlease hmac _ =>
    refine .inr fun lease' hlease' ↦ ?_
    rw [hlease, Option.some.injEq] at hlease'
    exact hlease' ▸ hmac
  | scanned _ hnone _ => exact .inr (hfree hnone)
  | exhausted _ => exact absurd rfl hip

theorem Reservation.mac_eq {mac : Mac} {hostname : Bytes}
    (hreservation : Reservation mac ip hostname state state' true)
    (howner : ∀ lease, state.leases[ip]? = some lease → offerExpiry state.clockUs < lease.expiry →
      lease.mac = mac) :
    ∃ lease, state'.leases[ip]? = some lease ∧ lease.mac = mac := by
  cases hreservation with
  | kept lease hlease hlong hlookup =>
    exact ⟨lease.rename hostname, by simp [hlookup],
      (lease.rename_mac hostname).trans (howner lease hlease hlong)⟩
  | written purged _ _ hlookup => exact ⟨_, by rw [hlookup, if_pos rfl], rfl⟩

/-- **Offer exclusivity.** An offer is exclusive exactly when the client did not ask for an address
held by another one. -/
theorem offerExclusive_iff
    (hhandle : handleDhcpMessage fuel cfg net datagram state = some (state', replies)) :
    OfferExclusive cfg state state' replies ↔ ¬ ∃ message, admittedMessage cfg datagram = some message ∧
        AsksForHeldAddress cfg net message state := by
  cases hmessage : admittedMessage cfg datagram with
  | none =>
    obtain ⟨-, rfl⟩ := handleDhcpMessage_none hmessage hhandle
    simp [OfferExclusive]
  | some message =>
    rw [handleDhcpMessage_eq hmessage] at hhandle
    simp only [Option.some.injEq, exists_eq_left']
    constructor
    · -- a held address that was asked for is offered, and breaks one half or the other
      rintro hexclusive ⟨hdiscover, hhonoured, lease, hlease, hmac, hheld⟩
      have hchosen := chooseOfferIp_honoured fuel hhonoured
      obtain ⟨hzero, -, hfixed, -⟩ := hhonoured
      rw [dispatch, if_pos hdiscover] at hhandle
      obtain ⟨offered, hchoose, ⟨-, hempty, -⟩ | ⟨-, rfl, hreservation⟩⟩ := sendDhcpOffer_spec hhandle
      · obtain ⟨rfl, -⟩ := Prod.mk.inj (mem_unique hchosen hchoose)
        refine absurd (hempty.resolve_left hzero) (not_not.mpr ?_)
        exact Std.TreeMap.mem_iff_isSome_getElem?.mpr (by simp [hlease])
      · obtain ⟨rfl, hclock⟩ := Prod.mk.inj (mem_unique hchosen hchoose)
        obtain ⟨hbefore, lease', hafter, hmac'⟩ := hexclusive _ (List.mem_singleton_self _) rfl hfixed
        rcases hheld with hlive | hlong
        · exact hmac (hbefore lease hlease hlive)
        · cases hreservation with
          | kept kept hkept _ hlookup =>
            rw [hlease, Option.some.injEq] at hkept
            have hsame : kept.rename message.clientName = lease' :=
              Option.some.inj (((hlookup message.requestedIp).trans (if_pos rfl)).symm.trans hafter)
            rw [← hsame, DhcpLease.rename_mac, ← hkept] at hmac'
            exact hmac hmac'
          | written _ hold _ _ => exact absurd (hclock ▸ hlong) (not_lt.mpr (hold lease hlease))
    · intro hasks reply hreply hoffer hfixed
      obtain ⟨hdiscover, hchaddr, hzero, hchoose, hreservation⟩ := dispatch_offer hhandle hreply hoffer
      rw [hchaddr] at hfixed ⊢
      obtain ⟨hhonoured, hip, hclock⟩ | howner := (chooseOfferIp_source hchoose).owner hzero hfixed
      · have hfree : ∀ lease, state.leases[reply.yiaddr]? = some lease → lease.mac ≠ message.chaddr →
            ¬ (currentTimeSec state.clockUs < lease.expiry ∨
              offerExpiry state'.clockUs < lease.expiry) := by
          intro lease hlease hmac hheld
          exact hasks ⟨hdiscover, hhonoured, lease, hip ▸ hlease, hmac, hclock ▸ hheld⟩
        refine ⟨fun lease hlease hlive ↦ ?_, hreservation.mac_eq fun lease hlease hlong ↦ ?_⟩
        · exact not_not.mp fun hmac ↦ hfree lease hlease hmac (.inl hlive)
        · exact not_not.mp fun hmac ↦ hfree lease hlease hmac (.inr hlong)
      · exact ⟨fun lease hlease _ ↦ howner lease hlease,
          hreservation.mac_eq fun lease hlease _ ↦ howner lease hlease⟩

/-- The second client's DISCOVER, asking for the address the first one leases. -/
def discoverOfLeased : Datagram :=
  clientDatagram kDhcpDiscover macB 0 (ipOption kOptReqAddr (dotted 192 168 1 100))

/-- The first client leases 192.168.1.100; the second, asking for it, is offered it at once. -/
theorem offerExclusive_fails : ∃ state, Reachable homeConfig state ∧ ∃ state' replies,
      handleDhcpMessage 1 homeConfig silentNet discoverOfLeased state = some (state', replies) ∧
      ¬ OfferExclusive homeConfig state state' replies := by
  have hreplay : ((performAll 1 homeConfig (.start 0)
      [asking kDhcpRequest macA (dotted 192 168 1 100)]).any fun first ↦
        (handleDhcpMessage 1 homeConfig silentNet discoverOfLeased first.1).any fun second ↦
          first.1.leases[dotted 192 168 1 100]? == some ⟨macA, dotted 192 168 1 100, 86400, []⟩ &&
          first.1.clockUs == 0 &&
          second.2 == [offerReply homeConfig macB 0 (dotted 192 168 1 100) 0]) = true := by
    decide +kernel
  simp only [any_eq_true, Bool.and_eq_true, beq_iff_eq] at hreplay
  obtain ⟨⟨state, events⟩, hfirst, ⟨state', replies⟩, hsecond, ⟨hlease, hclock⟩, hreplies⟩ := hreplay
  refine ⟨state, ⟨0, events, run_of_performAll hfirst⟩, state', replies, hsecond, fun h ↦ ?_⟩
  obtain rfl : replies = [offerReply homeConfig macB 0 (dotted 192 168 1 100) 0] := hreplies
  obtain ⟨hbefore, -⟩ := h _ (List.mem_singleton_self _) rfl (by decide)
  have hlive : currentTimeSec state.clockUs < 86400 := by
    rw [show state.clockUs = 0 from hclock]
    decide
  have hmac : macA = macB := hbefore _ hlease hlive
  exact absurd hmac (by decide)

/-- The first DISCOVER of a fresh server, without a requested address, is answered exclusively. -/
theorem offerExclusive_iff_first : ∃ state' replies, handleDhcpMessage 1 homeConfig silentNet
        (clientDatagram kDhcpDiscover macA 0 []) (.start 0) = some (state', replies) ∧
      replies ≠ [] ∧ OfferExclusive homeConfig (.start 0) state' replies := by
  have hreplay : ((handleDhcpMessage 1 homeConfig silentNet
      (clientDatagram kDhcpDiscover macA 0 []) (.start 0)).any fun result ↦
        result.2 == [offerReply homeConfig macA 0 (dotted 192 168 1 100) 0]) = true := by
    decide +kernel
  simp only [any_eq_true, beq_iff_eq] at hreplay
  obtain ⟨⟨state', replies⟩, hhandle, hreplies⟩ := hreplay
  obtain rfl : replies = [offerReply homeConfig macA 0 (dotted 192 168 1 100) 0] := hreplies
  refine ⟨state', _, hhandle, List.cons_ne_nil _ _, (offerExclusive_iff hhandle).mpr ?_⟩
  rintro ⟨message, -, -, -, lease, hlease, -⟩
  simp [State.start] at hlease

/-- Every entry of another client that is still in force when the message of `mac` has been dealt
with is what it was; an address bound to `mac` is left out. -/
def FrameKept (cfg : Config) (mac : Mac) (state state' : State) : Prop :=
  ∀ (ip : UInt32) (lease : DhcpLease), state.leases[ip]? = some lease →
    currentTimeSec state'.clockUs < lease.expiry → lease.mac ≠ mac →
    isStaticBindingForMac cfg mac ip = false → state'.leases[ip]? = some lease

/-- A RELEASE naming an address that another client's entry in force is on. -/
def ReleasesForeign (cfg : Config) (message : Message) (state : State) : Prop :=
  message.msgType = kDhcpRelease ∧ isStaticBindingForMac cfg message.chaddr message.ciaddr = false ∧
    ∃ lease, state.leases[message.ciaddr]? = some lease ∧ lease.mac ≠ message.chaddr ∧
      currentTimeSec state.clockUs < lease.expiry

/-- A DISCOVER that is granted the address it asks for, where another client's entry is in force
but has no more than the offer hold left: the entry becomes the asking client's reservation. -/
def TakesOverForeign (cfg : Config) (net : Net) (message : Message) (state : State) : Prop :=
  let after := (probeIp net message.requestedIp state.clockUs).clockUs
  message.msgType = kDhcpDiscover ∧ Honoured cfg net message.chaddr message.requestedIp state ∧
    ∃ lease, state.leases[message.requestedIp]? = some lease ∧ lease.mac ≠ message.chaddr ∧
      currentTimeSec after < lease.expiry ∧ lease.expiry ≤ offerExpiry after

/-- A DISCOVER that is granted the address it asks for, where another client's entry is in force
and either has no more than the offer hold left or is given a new host name. -/
def OverwritesForeign (cfg : Config) (net : Net) (message : Message) (state : State) : Prop :=
  let after := (probeIp net message.requestedIp state.clockUs).clockUs
  message.msgType = kDhcpDiscover ∧ Honoured cfg net message.chaddr message.requestedIp state ∧
    ∃ lease, state.leases[message.requestedIp]? = some lease ∧ lease.mac ≠ message.chaddr ∧
      currentTimeSec after < lease.expiry ∧
      (lease.expiry ≤ offerExpiry after ∨ message.clientName ≠ [] ∧ message.clientName ≠ lease.hostname)

theorem DhcpLease.rename_eq_self_iff (lease : DhcpLease) (hostname : Bytes) :
    lease.rename hostname = lease ↔ ¬ (hostname ≠ [] ∧ hostname ≠ lease.hostname) := by
  unfold DhcpLease.rename
  cases lease
  cases hostname <;> simp

theorem frameKept_of_entryStep
    (hentry : ∀ ip, EntryStep cfg net message state state'.clockUs ip state.leases[ip]?
      state'.leases[ip]?)
    (hclock : message.msgType = kDhcpRelease → state'.clockUs = state.clockUs)
    (hrelease : ¬ ReleasesForeign cfg message state)
    (hoverwrite : ¬ OverwritesForeign cfg net message state) :
    FrameKept cfg message.chaddr state state' := by
  intro ip lease hlease hlive hmac hfixed
  -- an address with a foreign entry can only have been chosen because it was asked for
  have hasked (hip : ip ≠ 0) (hsource : OfferSource cfg net message.chaddr message.requestedIp
      state ip state'.clockUs) : Honoured cfg net message.chaddr message.requestedIp state ∧
        ip = message.requestedIp ∧
        state'.clockUs = (probeIp net message.requestedIp state.clockUs).clockUs :=
    (hsource.owner hip hfixed).resolve_right fun howner ↦ hmac (howner lease hlease)
  have hstep := hentry ip
  rw [hlease] at hstep
  generalize hafter : state'.leases[ip]? = after at hstep
  cases hstep with
  | same => rfl
  | expired expired hold hexpired =>
    cases hold
    exact absurd hlive (not_lt.mpr hexpired)
  | released htype hip =>
    subst hip
    refine absurd ⟨htype, hfixed, lease, hlease, hmac, ?_⟩ hrelease
    rwa [← hclock htype]
  | declined declined _ _ hold hown =>
    cases hold
    exact absurd hown hmac
  | renamed kept htype hip hsource hold _ =>
    cases hold
    obtain ⟨hhonoured, rfl, hprobe⟩ := hasked hip hsource
    congr 1
    refine (lease.rename_eq_self_iff message.clientName).mpr fun hname ↦ hoverwrite ?_
    exact ⟨htype, hhonoured, lease, hlease, hmac, hprobe ▸ hlive, .inr hname⟩
  | reserved htype hip hsource hshort =>
    obtain ⟨hhonoured, rfl, hprobe⟩ := hasked hip hsource
    refine absurd ⟨htype, hhonoured, lease, hlease, hmac, hprobe ▸ hlive, .inl ?_⟩ hoverwrite
    exact hprobe ▸ hshort lease rfl
  | leased _ _ hwhy =>
    obtain hown | hown := hwhy
    · simp [hown] at hfixed
    · exact absurd (hown lease rfl) hmac

theorem dispatch_release (htype : message.msgType = kDhcpRelease) :
    dispatch fuel cfg net message state = some (handleRelease message state, []) := by
  have hdiscover : message.msgType ≠ kDhcpDiscover := by rw [htype]; decide
  have hrequest : message.msgType ≠ kDhcpRequest := by rw [htype]; decide
  rw [dispatch, if_neg hdiscover, if_neg hrequest, if_pos htype]

theorem ReleasesForeign.not_frameKept (hforeign : ReleasesForeign cfg message state) :
    ¬ FrameKept cfg message.chaddr state (handleRelease message state) := by
  obtain ⟨-, hfixed, lease, hlease, hmac, hlive⟩ := hforeign
  intro hframe
  have hkept := hframe message.ciaddr lease hlease hlive hmac hfixed
  simp [handleRelease] at hkept

theorem OverwritesForeign.not_frameKept (hforeign : OverwritesForeign cfg net message state)
    (hsend : sendDhcpOffer fuel cfg net message state = some (state', replies)) :
    ¬ FrameKept cfg message.chaddr state state' := by
  obtain ⟨-, hhonoured, lease, hlease, hmac, hlive, hchange⟩ := hforeign
  intro hframe
  have hchosen := chooseOfferIp_honoured fuel hhonoured
  obtain ⟨hzero, -, hfixed, -⟩ := hhonoured
  obtain ⟨offered, hchoose, hresult⟩ := sendDhcpOffer_spec hsend
  obtain ⟨rfl, hclock⟩ := Prod.mk.inj (mem_unique hchosen hchoose)
  rw [hclock] at hlive hchange
  have hkept := hframe message.requestedIp lease hlease hlive hmac hfixed
  obtain ⟨-, hempty, -⟩ | ⟨-, -, hreservation⟩ := hresult
  · refine absurd (hempty.resolve_left hzero) (not_not.mpr ?_)
    exact Std.TreeMap.mem_iff_isSome_getElem?.mpr (by simp [hlease])
  · cases hreservation with
    | kept old hold hlong hlookup =>
      obtain rfl : lease = old := mem_unique hlease hold
      have hsame : lease.rename message.clientName = lease :=
        Option.some.inj (((hlookup message.requestedIp).trans (if_pos rfl)).symm.trans hkept)
      refine (lease.rename_eq_self_iff message.clientName).mp hsame (hchange.resolve_left ?_)
      exact not_le.mpr hlong
    | written purged _ _ hlookup =>
      have hsame := ((hlookup message.requestedIp).trans (if_pos rfl)).symm.trans hkept
      exact hmac (congrArg DhcpLease.mac (Option.some.inj hsame)).symm

/-- **Ownership frame.** A datagram leaves the entries of clients other than its sender alone
exactly when it is neither a RELEASE of one of them nor a DISCOVER that rewrites one. -/
theorem frameKept_iff (hhandle : handleDhcpMessage fuel cfg net datagram state = some (state', replies)) :
    FrameKept cfg datagram.chaddr state state' ↔ ¬ ∃ message, admittedMessage cfg datagram = some message ∧
        (ReleasesForeign cfg message state ∨ OverwritesForeign cfg net message state) := by
  cases hmessage : admittedMessage cfg datagram with
  | none =>
    obtain ⟨rfl, -⟩ := handleDhcpMessage_none hmessage hhandle
    have hframe : FrameKept cfg datagram.chaddr state' state' := fun _ _ hlease _ _ _ ↦ hlease
    simp [hframe]
  | some message =>
    rw [handleDhcpMessage_eq hmessage] at hhandle
    rw [← admittedMessage_chaddr hmessage]
    simp only [Option.some.injEq, exists_eq_left', not_or]
    constructor
    · intro hframe
      constructor
      · intro hforeign
        rw [dispatch_release hforeign.1] at hhandle
        cases hhandle
        exact hforeign.not_frameKept hframe
      · intro hforeign
        rw [dispatch, if_pos hforeign.1] at hhandle
        exact hforeign.not_frameKept hhandle hframe
    · rintro ⟨hrelease, hoverwrite⟩
      refine frameKept_of_entryStep (dispatch_entry hhandle) (fun htype ↦ ?_) hrelease hoverwrite
      rw [dispatch_release htype] at hhandle
      cases hhandle
      rfl

/-- A RELEASE of the second client that names the address of the first. -/
def releaseOfLeased : Datagram := clientDatagram kDhcpRelease macB (dotted 192 168 1 100) []

/-- The first client leases 192.168.1.100; a RELEASE of the second takes the lease away. -/
theorem frameKept_fails : ∃ state, Reachable homeConfig state ∧ ∃ state' replies,
      handleDhcpMessage 1 homeConfig silentNet releaseOfLeased state = some (state', replies) ∧
      ¬ FrameKept homeConfig releaseOfLeased.chaddr state state' := by
  have hreplay : ((performAll 1 homeConfig (.start 0)
      [asking kDhcpRequest macA (dotted 192 168 1 100)]).any fun first ↦
        (handleDhcpMessage 1 homeConfig silentNet releaseOfLeased first.1).any fun second ↦
          first.1.leases[dotted 192 168 1 100]? == some ⟨macA, dotted 192 168 1 100, 86400, []⟩ &&
          second.1.leases[dotted 192 168 1 100]? == none && second.1.clockUs == 0) = true := by
    decide +kernel
  simp only [any_eq_true, Bool.and_eq_true, beq_iff_eq] at hreplay
  obtain ⟨⟨state, events⟩, hfirst, ⟨state', replies⟩, hsecond, ⟨hlease, hgone⟩, hclock⟩ := hreplay
  refine ⟨state, ⟨0, events, run_of_performAll hfirst⟩, state', replies, hsecond, fun hframe ↦ ?_⟩
  have hlive : currentTimeSec state'.clockUs < 86400 := by
    rw [show state'.clockUs = 0 from hclock]
    decide
  have hkept := hframe _ _ hlease hlive (by decide) (by decide)
  rw [show state'.leases[dotted 192 168 1 100]? = none from hgone] at hkept
  exact absurd hkept (by simp)

/-- The second client's DISCOVER of another address leaves the first client's lease alone. -/
theorem frameKept_iff_other : ∃ state, Reachable homeConfig state ∧
      (∃ lease, state.leases[dotted 192 168 1 100]? = some lease ∧ lease.mac = macA) ∧
      ∃ state' replies, handleDhcpMessage 1 homeConfig silentNet
        (clientDatagram kDhcpDiscover macB 0 (ipOption kOptReqAddr (dotted 192 168 1 101))) state =
          some (state', replies) ∧ FrameKept homeConfig macB state state' := by
  let datagram := clientDatagram kDhcpDiscover macB 0 (ipOption kOptReqAddr (dotted 192 168 1 101))
  have hreplay : ((performAll 1 homeConfig (.start 0)
      [asking kDhcpRequest macA (dotted 192 168 1 100)]).any fun first ↦
        (handleDhcpMessage 1 homeConfig silentNet datagram first.1).isSome &&
          first.1.leases[dotted 192 168 1 100]? == some ⟨macA, dotted 192 168 1 100, 86400, []⟩ &&
          first.1.leases[dotted 192 168 1 101]? == none) = true := by
    decide +kernel
  simp only [any_eq_true, Bool.and_eq_true, beq_iff_eq, isSome_iff_exists] at hreplay
  obtain ⟨⟨state, events⟩, hfirst, ⟨⟨⟨state', replies⟩, hsecond⟩, hlease⟩, hfree⟩ := hreplay
  refine ⟨state, ⟨0, events, run_of_performAll hfirst⟩, ⟨_, hlease, rfl⟩, state', replies, hsecond, ?_⟩
  have hsender : datagram.chaddr = macB := by decide
  rw [← hsender]
  refine (frameKept_iff hsecond).mpr ?_
  have hparsed : ∀ message, admittedMessage homeConfig datagram = some message →
      message.msgType = kDhcpDiscover ∧ message.requestedIp = dotted 192 168 1 101 := by
    decide +kernel
  rintro ⟨message, hmessage, ⟨htype, -⟩ | ⟨-, -, lease, hheld, -⟩⟩
  · rw [(hparsed message hmessage).1] at htype
    exact absurd htype (by decide)
  · rw [(hparsed message hmessage).2] at hheld
    exact absurd (hfree.symm.trans hheld) (by simp)

end DhcpServer.Dhcp
