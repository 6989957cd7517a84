import DhcpServer.Dhcp.Server

/-!
# What one DHCP message can do

Two inversion lemmas carry every later result. `OfferSource` lists the ways `sendDhcpOffer` comes
to an address. `EntryStep` lists, for one address of the table, everything a message can do to its
entry, with the guard under which the source does it.
-/

namespace DhcpServer.Dhcp

open Library List Option

theorem clockUs_le_probeIp (net : Net) (ip : UInt32) (clockUs : Nat) :
    clockUs ≤ (probeIp net ip clockUs).clockUs := by
  unfold probeIp
  repeat' split
  all_goals simp only
  all_goals omega

/-! ## Choosing an address -/

/-- The client asked for an address of the range that nobody refused and nobody answers on. -/
def Honoured (cfg : Config) (net : Net) (mac : Mac) (requestedIp : UInt32) (state : State) : Prop :=
  requestedIp ≠ 0 ∧ isIpInRange cfg requestedIp = true ∧ isStaticBindingForMac cfg mac requestedIp = false ∧
    addressDeclined state requestedIp state.clockUs = false ∧
    (probeIp net requestedIp state.clockUs).inUse = false

instance (cfg : Config) (net : Net) (mac : Mac) (requestedIp : UInt32) (state : State) :
    Decidable (Honoured cfg net mac requestedIp state) := by
  unfold Honoured
  infer_instance

/-- An address the scan of `selectIp` can stop at: it is reached from the start of the range
without leaving it, both in the order of the raw words. -/
inductive Scanned (cfg : Config) : UInt32 → Prop
  | first : cfg.rangeStart ≤ cfg.rangeEnd → Scanned cfg cfg.rangeStart
  | next {ip : UInt32} : Scanned cfg ip → nextIp ip ≤ cfg.rangeEnd → Scanned cfg (nextIp ip)

/-- How `sendDhcpOffer` comes to an address; `exhausted` is the scan that found none. -/
inductive OfferSource (cfg : Config) (net : Net) (mac : Mac) (requestedIp : UInt32)
    (state : State) : UInt32 → Nat → Prop
  | fixed : isStaticBindingForMac cfg mac requestedIp = true →
      OfferSource cfg net mac requestedIp state requestedIp state.clockUs
  | requested : Honoured cfg net mac requestedIp state →
      OfferSource cfg net mac requestedIp state requestedIp
        (probeIp net requestedIp state.clockUs).clockUs
  | binding {ip : UInt32} {clockUs : Nat} : isStaticBindingForMac cfg mac ip = true →
      ip ∉ state.leases → state.clockUs ≤ clockUs →
      OfferSource cfg net mac requestedIp state ip clockUs
  | own {ip : UInt32} {clockUs : Nat} (lease : DhcpLease) : state.leases[ip]? = some lease →
      lease.mac = mac → state.clockUs ≤ clockUs →
      OfferSource cfg net mac requestedIp state ip clockUs
  | scanned {ip : UInt32} {clockUs : Nat} : Scanned cfg ip → ip ∉ state.leases →
      state.clockUs ≤ clockUs → OfferSource cfg net mac requestedIp state ip clockUs
  | exhausted {clockUs : Nat} : state.clockUs ≤ clockUs →
      OfferSource cfg net mac requestedIp state 0 clockUs

theorem scanRange_spec {cfg : Config} {net : Net} {state : State} {fuel : Nat} {start ip : UInt32}
    {clockUs after : Nat} (hstart : start ≤ cfg.rangeEnd → Scanned cfg start)
    (hscan : scanRange cfg net state fuel start clockUs = some (ip, after)) :
    clockUs ≤ after ∧ (ip = 0 ∨ Scanned cfg ip ∧ ip ∉ state.leases) := by
  induction fuel generalizing start clockUs with
  | zero => simp [scanRange] at hscan
  | succ fuel ih =>
    rw [scanRange] at hscan
    dsimp only at hscan
    by_cases hend : start ≤ cfg.rangeEnd
    case neg =>
      simp only [if_neg hend, Option.some.injEq, Prod.mk.injEq] at hscan
      exact ⟨le_of_eq hscan.2, .inl hscan.1.symm⟩
    have hnext : nextIp start ≤ cfg.rangeEnd → Scanned cfg (nextIp start) := Scanned.next (hstart hend)
    rw [if_pos hend] at hscan
    split_ifs at hscan with hserver hleased hdeclined hprobe
    · exact ih hnext hscan
    · exact ih hnext hscan
    · exact ih hnext hscan
    · have hlater := ih hnext hscan
      exact ⟨le_trans (clockUs_le_probeIp net start clockUs) hlater.1, hlater.2⟩
    · simp only [Option.some.injEq, Prod.mk.injEq] at hscan
      obtain ⟨rfl, rfl⟩ := hscan
      exact ⟨clockUs_le_probeIp net start clockUs, .inr ⟨hstart hend, hleased⟩⟩

theorem selectIp_source {cfg : Config} {net : Net} {mac : Mac} {state : State} {fuel : Nat}
    {ip requestedIp : UInt32} {clockUs after : Nat} (hclock : state.clockUs ≤ clockUs)
    (hselect : selectIp fuel cfg net mac state clockUs = some (ip, after)) :
    OfferSource cfg net mac requestedIp state ip after := by
  unfold selectIp at hselect
  split at hselect
  · rename_i entry hbinding
    simp only [Option.some.injEq, Prod.mk.injEq] at hselect
    obtain ⟨rfl, rfl⟩ := hselect
    have hmem := mem_of_find?_eq_some hbinding
    have hguard := find?_some hbinding
    simp only [Bool.and_eq_true, beq_iff_eq, Bool.not_eq_true', ← Bool.not_eq_true,
      Std.TreeMap.contains_iff_mem] at hguard
    refine .binding (any_eq_true.mpr ⟨entry, hmem, ?_⟩) hguard.2 hclock
    simp [hguard.1.1, hguard.1.2]
  · split at hselect
    · rename_i ip' lease hown
      simp only [Option.some.injEq, Prod.mk.injEq] at hselect
      obtain ⟨rfl, rfl⟩ := hselect
      have hmem := Std.TreeMap.mem_toList_iff_getElem?_eq_some.mp (mem_of_find?_eq_some hown)
      have hmac : lease.mac = mac := by simpa using find?_some hown
      exact .own lease hmem hmac hclock
    · obtain ⟨hle, rfl | ⟨hscanned, hfree⟩⟩ := scanRange_spec Scanned.first hselect
      · exact .exhausted (le_trans hclock hle)
      · exact .scanned hscanned hfree (le_trans hclock hle)

theorem chooseOfferIp_source {cfg : Config} {net : Net} {mac : Mac} {state : State} {fuel : Nat}
    {ip requestedIp : UInt32} {after : Nat}
    (hchoose : chooseOfferIp fuel cfg net mac requestedIp state = some (ip, after)) :
    OfferSource cfg net mac requestedIp state ip after := by
  unfold chooseOfferIp at hchoose
  dsimp only at hchoose
  split_ifs at hchoose with hasked hfixed hdeclined hprobe
  · simp only [Option.some.injEq, Prod.mk.injEq] at hchoose
    obtain ⟨rfl, rfl⟩ := hchoose
    exact .fixed hfixed
  · exact selectIp_source le_rfl hchoose
  · exact selectIp_source (clockUs_le_probeIp _ _ _) hchoose
  · simp only [Option.some.injEq, Prod.mk.injEq] at hchoose
    obtain ⟨rfl, rfl⟩ := hchoose
    have hrange : isIpInRange cfg requestedIp := hasked.2.resolve_right hfixed
    exact .requested ⟨hasked.1, hrange, by simpa using hfixed, by simpa using hdeclined,
      by simpa using hprobe⟩
  · exact selectIp_source le_rfl hchoose

theorem OfferSource.clockUs_le {cfg : Config} {net : Net} {mac : Mac} {state : State}
    {ip requestedIp : UInt32} {after : Nat}
    (hsource : OfferSource cfg net mac requestedIp state ip after) : state.clockUs ≤ after := by
  cases hsource with
  | fixed => exact le_rfl
  | requested => exact clockUs_le_probeIp _ _ _
  | binding _ _ hle => exact hle
  | own _ _ _ hle => exact hle
  | scanned _ _ hle => exact hle
  | exhausted hle => exact hle

theorem chooseOfferIp_honoured {cfg : Config} {net : Net} {mac : Mac} {state : State}
    {requestedIp : UInt32} (fuel : Nat) (hhonoured : Honoured cfg net mac requestedIp state) :
    chooseOfferIp fuel cfg net mac requestedIp state =
      some (requestedIp, (probeIp net requestedIp state.clockUs).clockUs) := by
  obtain ⟨hzero, hrange, hfixed, hdeclined, hprobe⟩ := hhonoured
  simp [chooseOfferIp, hzero, hrange, hfixed, hdeclined, hprobe]

/-! ## One entry of the table -/

section Entry

variable {cfg : Config} {mac : Mac} {ip : UInt32} {hostname : Bytes} {state state' : State}

/-- `after` is `before` less some entries that had expired at `now`. -/
def Purged (now : Nat) (before after : LeaseTable) : Prop :=
  ∀ ip : UInt32, after[ip]? = before[ip]? ∨
    after[ip]? = none ∧ ∃ lease : DhcpLease, before[ip]? = some lease ∧ lease.expiry ≤ now

theorem Purged.refl (now : Nat) (table : LeaseTable) : Purged now table table := fun _ ↦ .inl rfl

theorem removeExpiredLeases_lookup (state : State) (ip : UInt32) : (removeExpiredLeases state).leases[ip]? =
      state.leases[ip]?.filter fun lease ↦ currentTimeSec state.clockUs < lease.expiry := by
  simp [removeExpiredLeases, Std.TreeMap.getElem?_filter, pfilter_eq_filter]

theorem removeExpiredLeases_purged (state : State) :
    Purged (currentTimeSec state.clockUs) state.leases (removeExpiredLeases state).leases := by
  intro ip
  rw [removeExpiredLeases_lookup]
  cases hentry : state.leases[ip]? with
  | none => exact .inl rfl
  | some lease =>
    by_cases hlive : currentTimeSec state.clockUs < lease.expiry
    · left
      simp [hlive]
    · have hexpired : lease.expiry ≤ currentTimeSec state.clockUs := not_lt.mp hlive
      right
      simpa [Option.filter, hlive] using hexpired

theorem putLease_lookup (state : State) (mac : Mac) (ip ip' : UInt32) (expiry : Nat)
    (hostname : Bytes) : (putLease state mac ip expiry hostname).leases[ip']? =
      if ip = ip' then some ⟨mac, ip, expiry, hostname⟩ else state.leases[ip']? := by
  simp [putLease, Std.TreeMap.getElem?_insert]

/-- A purge happens only for an address without an entry, and touches nothing but the table. -/
theorem canAddLeaseEntry_spec {ok : Bool} (hcan : canAddLeaseEntry cfg ip state = (ok, state')) :
    Purged (currentTimeSec state.clockUs) state.leases state'.leases ∧
      state'.clockUs = state.clockUs ∧ (ip ∈ state.leases → ok) := by
  unfold canAddLeaseEntry at hcan
  dsimp only at hcan
  split_ifs at hcan with hmem hfull hroom hroom
  all_goals
    cases hcan
  · exact ⟨.refl _ _, rfl, fun _ ↦ rfl⟩
  · exact ⟨removeExpiredLeases_purged state, rfl, fun _ ↦ rfl⟩
  · exact ⟨removeExpiredLeases_purged state, rfl, fun h ↦ absurd h hmem⟩
  · exact ⟨.refl _ _, rfl, fun _ ↦ rfl⟩
  · exact ⟨.refl _ _, rfl, fun h ↦ absurd h hmem⟩

/-- The three ways `reserveOffer` ends. -/
inductive Reservation (mac : Mac) (ip : UInt32) (hostname : Bytes) (state state' : State) : Bool → Prop
  | kept (lease : DhcpLease) : state.leases[ip]? = some lease → offerExpiry state.clockUs < lease.expiry →
      (∀ ip' : UInt32, state'.leases[ip']? =
        if ip = ip' then some (lease.rename hostname) else state.leases[ip']?) →
      Reservation mac ip hostname state state' true
  | written (purged : LeaseTable) :
      (∀ lease, state.leases[ip]? = some lease → lease.expiry ≤ offerExpiry state.clockUs) →
      Purged (currentTimeSec state.clockUs) state.leases purged →
      (∀ ip' : UInt32, state'.leases[ip']? =
        if ip = ip' then some ⟨mac, ip, offerExpiry state.clockUs, hostname⟩
        else purged[ip']?) →
      Reservation mac ip hostname state state' true
  | refused : ip ∉ state.leases → Purged (currentTimeSec state.clockUs) state.leases state'.leases →
      Reservation mac ip hostname state state' false

theorem writeReservation_spec {ok : Bool}
    (hold : ∀ lease, state.leases[ip]? = some lease → lease.expiry ≤ offerExpiry state.clockUs)
    (hwrite : writeReservation cfg mac ip hostname state = (ok, state')) :
    state'.clockUs = state.clockUs ∧ Reservation mac ip hostname state state' ok := by
  unfold writeReservation at hwrite
  rcases hcan : canAddLeaseEntry cfg ip state with ⟨added, purged⟩
  obtain ⟨hpurged, hclock, hmem⟩ := canAddLeaseEntry_spec hcan
  rw [hcan] at hwrite
  cases added with
  | false =>
    cases hwrite
    exact ⟨hclock, .refused (fun h ↦ Bool.noConfusion (hmem h)) hpurged⟩
  | true =>
    cases hwrite
    exact ⟨hclock, .written purged.leases hold hpurged (putLease_lookup purged mac ip · _ hostname)⟩

theorem reserveOffer_spec {ok : Bool}
    (hreserve : reserveOffer cfg mac ip hostname state = (ok, state')) :
    state'.clockUs = state.clockUs ∧ Reservation mac ip hostname state state' ok := by
  unfold reserveOffer at hreserve
  split at hreserve
  · rename_i lease hlease
    split_ifs at hreserve with hlong
    · cases hreserve
      refine ⟨rfl, .kept lease hlease hlong fun ip' ↦ ?_⟩
      simp [Std.TreeMap.getElem?_insert]
    · refine writeReservation_spec (fun lease' hlease' ↦ ?_) hreserve
      rw [hlease, Option.some.injEq] at hlease'
      exact hlease' ▸ not_lt.mp hlong
  · rename_i hnone
    exact writeReservation_spec (fun lease hlease ↦ by simp [hnone] at hlease) hreserve

/-- What the message `message`, handled from `state` until `after`, makes of the entry `old` of
the address `ip`. -/
inductive EntryStep (cfg : Config) (net : Net) (message : Message) (state : State) (after : Nat)
    (ip : UInt32) (old : Option DhcpLease) : Option DhcpLease → Prop
  | same : EntryStep cfg net message state after ip old old
  | expired (lease : DhcpLease) : old = some lease → lease.expiry ≤ currentTimeSec after →
      EntryStep cfg net message state after ip old none
  | released : message.msgType = kDhcpRelease → message.ciaddr = ip →
      EntryStep cfg net message state after ip old none
  | declined (lease : DhcpLease) : message.msgType = kDhcpDecline → message.requestedIp = ip →
      old = some lease → lease.mac = message.chaddr →
      EntryStep cfg net message state after ip old none
  | renamed (lease : DhcpLease) : message.msgType = kDhcpDiscover → ip ≠ 0 →
      OfferSource cfg net message.chaddr message.requestedIp state ip after →
      old = some lease → offerExpiry after < lease.expiry →
      EntryStep cfg net message state after ip old (some (lease.rename message.clientName))
  | reserved : message.msgType = kDhcpDiscover → ip ≠ 0 →
      OfferSource cfg net message.chaddr message.requestedIp state ip after →
      (∀ lease, old = some lease → lease.expiry ≤ offerExpiry after) →
      EntryStep cfg net message state after ip old
        (some ⟨message.chaddr, ip, offerExpiry after, message.clientName⟩)
  | leased : message.msgType = kDhcpRequest →
      isIpInRange cfg ip = true ∨ isStaticBindingForMac cfg message.chaddr ip = true →
      isStaticBindingForMac cfg message.chaddr ip = true ∨
        (∀ lease, old = some lease → lease.mac = message.chaddr) →
      EntryStep cfg net message state after ip old
        (some ⟨message.chaddr, ip, leaseExpiry cfg after, message.clientName⟩)

theorem EntryStep.of_purged {net : Net} {message : Message} {after : Nat}
    {table purged : LeaseTable} (hpurged : Purged (currentTimeSec after) table purged)
    (ip : UInt32) : EntryStep cfg net message state after ip table[ip]? purged[ip]? := by
  obtain heq | ⟨hnone, lease, hlease, hexpired⟩ := hpurged ip
  · rw [heq]
    exact .same
  · rw [hnone]
    exact .expired lease hlease hexpired

variable {net : Net} {message : Message} {replies : List Reply} {fuel : Nat}

/-- `sendDhcpOffer` sends nothing, or one OFFER for an address it kept or wrote in the table. An
address with an entry is always offered: the cap counts only new entries. -/
theorem sendDhcpOffer_spec (hsend : sendDhcpOffer fuel cfg net message state = some (state', replies)) :
    ∃ ip, chooseOfferIp fuel cfg net message.chaddr message.requestedIp state =
        some (ip, state'.clockUs) ∧
      (replies = [] ∧ (ip = 0 ∨ ip ∉ state.leases) ∧
          Purged (currentTimeSec state'.clockUs) state.leases state'.leases ∨
        ip ≠ 0 ∧ replies = [offerReply cfg message.chaddr message.xid ip message.giaddr] ∧
          Reservation message.chaddr ip message.clientName
            { state with clockUs := state'.clockUs } state' true) := by
  simp only [sendDhcpOffer, bind_eq_bind, bind_eq_some_iff, Prod.exists] at hsend
  obtain ⟨ip, clockUs, hchoose, hsend⟩ := hsend
  refine ⟨ip, ?_⟩
  by_cases hzero : ip = 0
  · simp only [hzero, if_true, Option.pure_def, Option.some.injEq, Prod.mk.injEq] at hsend
    obtain ⟨rfl, rfl⟩ := hsend
    exact ⟨hchoose, .inl ⟨rfl, .inl hzero, .refl _ _⟩⟩
  · rw [if_neg hzero] at hsend
    rcases hreserve : reserveOffer cfg message.chaddr ip message.clientName
      { state with clockUs } with ⟨ok, reserved⟩
    rw [hreserve] at hsend
    obtain ⟨hclock, hreservation⟩ := reserveOffer_spec hreserve
    cases ok with
    | false =>
      simp only [Option.pure_def, Option.some.injEq, Prod.mk.injEq] at hsend
      obtain ⟨rfl, rfl⟩ := hsend
      cases hreservation with
      | refused hfree hpurged =>
        rw [hclock]
        exact ⟨hchoose, .inl ⟨rfl, .inr hfree, hpurged⟩⟩
    | true =>
      simp only [Option.pure_def, Option.some.injEq, Prod.mk.injEq] at hsend
      obtain ⟨rfl, rfl⟩ := hsend
      rw [hclock]
      exact ⟨hchoose, .inr ⟨hzero, rfl, hreservation⟩⟩

theorem decideRequest_spec {after : Nat}
    (hdecide : decideRequest cfg net mac ip state = (true, after)) :
    state.clockUs ≤ after ∧ (isStaticBindingForMac cfg mac ip = true ∨
      ∀ lease, state.leases[ip]? = some lease → lease.mac = mac) := by
  unfold decideRequest at hdecide
  by_cases hfixed : isStaticBindingForMac cfg mac ip
  · rw [if_pos hfixed] at hdecide
    exact ⟨le_of_eq (Prod.mk.inj hdecide).2, .inl hfixed⟩
  · rw [if_neg hfixed] at hdecide
    split at hdecide
    · rename_i lease hlease
      obtain ⟨hmac, hclock⟩ := Prod.mk.inj hdecide
      refine ⟨le_of_eq hclock, .inr fun lease' hlease' ↦ ?_⟩
      rw [hlease, Option.some.injEq] at hlease'
      exact hlease' ▸ beq_iff_eq.mp hmac
    · rename_i hnone
      have hfree : ∀ lease, state.leases[ip]? = some lease → lease.mac = mac :=
        fun lease hlease ↦ by simp [hnone] at hlease
      split_ifs at hdecide with hdeclined
      · simp at hdecide
      · obtain ⟨_, hclock⟩ := Prod.mk.inj hdecide
        exact ⟨hclock ▸ clockUs_le_probeIp net ip state.clockUs, .inr hfree⟩

theorem decideRequest_clockUs_le (cfg : Config) (net : Net) (mac : Mac) (ip : UInt32)
    (state : State) : state.clockUs ≤ (decideRequest cfg net mac ip state).2 := by
  unfold decideRequest
  repeat' split
  all_goals first | exact le_rfl | exact clockUs_le_probeIp _ _ _

theorem handleRequest_spec (hhandle : handleRequest cfg net message state = (state', replies)) :
    state.clockUs ≤ state'.clockUs ∧ ((∀ reply ∈ replies, reply.msgType = kDhcpNak) ∧
          Purged (currentTimeSec state'.clockUs) state.leases state'.leases ∨
        ∃ purged, replies = [ackReply cfg message.chaddr message.xid (assignedIp message)
            message.giaddr] ∧
          (isIpInRange cfg (assignedIp message) = true ∨
            isStaticBindingForMac cfg message.chaddr (assignedIp message)) ∧
          decideRequest cfg net message.chaddr (assignedIp message) state = (true, state'.clockUs) ∧
          Purged (currentTimeSec state'.clockUs) state.leases purged ∧
          ∀ ip' : UInt32, state'.leases[ip']? =
            if assignedIp message = ip' then
              some ⟨message.chaddr, assignedIp message, leaseExpiry cfg state'.clockUs, message.clientName⟩
            else purged[ip']?) := by
  unfold handleRequest at hhandle
  dsimp only at hhandle
  split_ifs at hhandle with hserver hvalid
  · have hle := decideRequest_clockUs_le cfg net message.chaddr (assignedIp message) state
    rcases hdecide : decideRequest cfg net message.chaddr (assignedIp message) state with
      ⟨ack, clockUs⟩
    rw [hdecide] at hhandle hle
    cases ack with
    | false =>
      cases hhandle
      exact ⟨hle, .inl ⟨by simp [nakReply], .refl _ _⟩⟩
    | true =>
      rcases hcan : canAddLeaseEntry cfg (assignedIp message) { state with clockUs } with
        ⟨ok, purged⟩
      obtain ⟨hpurged, hclock, -⟩ := canAddLeaseEntry_spec hcan
      simp only [hcan] at hhandle
      cases ok with
      | false =>
        cases hhandle
        exact ⟨hclock ▸ hle, .inl ⟨by simp [nakReply], hclock ▸ hpurged⟩⟩
      | true =>
        cases hhandle
        have hadd : (addLease cfg message.chaddr (assignedIp message) message.clientName
            purged).clockUs = clockUs := hclock
        rw [hadd]
        refine ⟨hle, .inr ⟨purged.leases, rfl, hvalid.2.2, rfl, hpurged, fun ip' ↦ ?_⟩⟩
        rw [addLease, hclock]
        exact putLease_lookup _ _ _ _ _ _
  · cases hhandle
    exact ⟨le_rfl, .inl ⟨by simp [nakReply], .refl _ _⟩⟩
  · cases hhandle
    exact ⟨le_rfl, .inl ⟨by simp, .refl _ _⟩⟩

section

variable (hdispatch : dispatch fuel cfg net message state = some (state', replies))
include hdispatch

theorem dispatch_clockUs_le : state.clockUs ≤ state'.clockUs := by
  unfold dispatch at hdispatch
  split_ifs at hdispatch
  · obtain ⟨ip, hchoose, -⟩ := sendDhcpOffer_spec hdispatch
    exact (chooseOfferIp_source hchoose).clockUs_le
  · exact (handleRequest_spec (Option.some.inj hdispatch)).1
  all_goals
    cases hdispatch
    exact le_rfl

/-- **Inversion.** Everything a message can do to the entry of one address. -/
theorem dispatch_entry (ip : UInt32) :
    EntryStep cfg net message state state'.clockUs ip state.leases[ip]? state'.leases[ip]? := by
  unfold dispatch at hdispatch
  split_ifs at hdispatch with hdiscover hrequest hrelease hdecline
  · obtain ⟨offered, hchoose, ⟨-, -, hpurged⟩ | ⟨hzero, -, hreservation⟩⟩ :=
      sendDhcpOffer_spec hdispatch
    · exact .of_purged hpurged ip
    · have hsource := chooseOfferIp_source hchoose
      cases hreservation with
      | kept lease hlease hlong hlookup =>
        rw [hlookup ip]
        by_cases hip : offered = ip
        · subst hip
          rw [if_pos rfl]
          exact .renamed lease hdiscover hzero hsource hlease hlong
        · rw [if_neg hip]
          exact .same
      | written purged hold hpurged hlookup =>
        rw [hlookup ip]
        by_cases hip : offered = ip
        · subst hip
          rw [if_pos rfl]
          exact .reserved hdiscover hzero hsource hold
        · rw [if_neg hip]
          exact .of_purged hpurged ip
  · obtain ⟨-, ⟨-, hpurged⟩ | ⟨purged, -, hvalid, hdecide, hpurged, hlookup⟩⟩ :=
      handleRequest_spec (Option.some.inj hdispatch)
    · exact .of_purged hpurged ip
    · rw [hlookup ip]
      by_cases hip : assignedIp message = ip
      · subst hip
        rw [if_pos rfl]
        exact .leased hrequest hvalid (decideRequest_spec hdecide).2
      · rw [if_neg hip]
        exact .of_purged hpurged ip
  · cases hdispatch
    by_cases hip : message.ciaddr = ip
    · simpa [handleRelease, hip] using EntryStep.released hrelease hip
    · simpa [handleRelease, hip, Std.TreeMap.getElem?_erase] using EntryStep.same
  · cases hdispatch
    unfold handleDecline
    split
    · rename_i lease hlease
      split_ifs with hmac
      · by_cases hip : message.requestedIp = ip
        · rw [hip] at hlease
          simpa [hip] using EntryStep.declined lease hdecline hip hlease hmac
        · simpa [hip, Std.TreeMap.getElem?_erase] using EntryStep.same
      · exact .same
    · exact .same
  · cases hdispatch
    exact .same

theorem dispatch_offer {reply : Reply} (hreply : reply ∈ replies) (hoffer : reply.msgType = kDhcpOffer) :
    message.msgType = kDhcpDiscover ∧ reply.chaddr = message.chaddr ∧ reply.yiaddr ≠ 0 ∧
      chooseOfferIp fuel cfg net message.chaddr message.requestedIp state =
        some (reply.yiaddr, state'.clockUs) ∧
      Reservation message.chaddr reply.yiaddr message.clientName
        { state with clockUs := state'.clockUs } state' true := by
  unfold dispatch at hdispatch
  split_ifs at hdispatch with hdiscover
  · obtain ⟨ip, hchoose, ⟨rfl, -⟩ | ⟨hzero, rfl, hreservation⟩⟩ := sendDhcpOffer_spec hdispatch
    · simp at hreply
    · obtain rfl := mem_singleton.mp hreply
      exact ⟨hdiscover, rfl, hzero, hchoose, hreservation⟩
  · obtain ⟨-, ⟨hnak, -⟩ | ⟨-, rfl, -⟩⟩ := handleRequest_spec (Option.some.inj hdispatch)
    · rw [hnak reply hreply] at hoffer
      exact absurd hoffer (by decide)
    · obtain rfl := mem_singleton.mp hreply
      exact absurd hoffer (by change kDhcpAck ≠ kDhcpOffer; decide)
  all_goals
    cases hdispatch
    simp at hreply

/-- An ACK answers a REQUEST, to its sender, for an address of the range or its own binding that
no other client has an entry for; the lease is in the table afterwards. -/
theorem dispatch_ack {reply : Reply} (hreply : reply ∈ replies) (hack : reply.msgType = kDhcpAck) :
    message.msgType = kDhcpRequest ∧ reply.chaddr = message.chaddr ∧ (isIpInRange cfg reply.yiaddr = true ∨
        isStaticBindingForMac cfg message.chaddr reply.yiaddr) ∧
      (isStaticBindingForMac cfg message.chaddr reply.yiaddr = true ∨
        ∀ lease, state.leases[reply.yiaddr]? = some lease → lease.mac = message.chaddr) ∧
      state'.leases[reply.yiaddr]? = some ⟨message.chaddr, reply.yiaddr,
        leaseExpiry cfg state'.clockUs, message.clientName⟩ := by
  unfold dispatch at hdispatch
  split_ifs at hdispatch with _ hrequest
  · obtain ⟨ip, -, ⟨rfl, -⟩ | ⟨-, rfl, -⟩⟩ := sendDhcpOffer_spec hdispatch
    · simp at hreply
    · obtain rfl := mem_singleton.mp hreply
      exact absurd hack (by change kDhcpOffer ≠ kDhcpAck; decide)
  · obtain ⟨-, ⟨hnak, -⟩ | ⟨purged, rfl, hvalid, hdecide, -, hlookup⟩⟩ :=
      handleRequest_spec (Option.some.inj hdispatch)
    · rw [hnak reply hreply] at hack
      exact absurd hack (by decide)
    · obtain rfl := mem_singleton.mp hreply
      refine ⟨hrequest, rfl, hvalid, (decideRequest_spec hdecide).2, ?_⟩
      exact (hlookup (assignedIp message)).trans (if_pos rfl)
  all_goals
    cases hdispatch
    simp at hreply

end

end Entry

end DhcpServer.Dhcp
