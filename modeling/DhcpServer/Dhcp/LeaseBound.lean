import DhcpServer.Dhcp.Runs

/-!
# The bound of the lease table

`canAddLeaseEntry` is asked before every entry that is written, and an entry that replaces another one
makes the table no larger. So the table stays within the cap whatever comes in and however the clock
moves, and a message the cap turns away leaves every entry in force alone and grants nothing.
-/

namespace DhcpServer.Dhcp

open Library

variable {cfg : Config} {net : Net} {mac : Mac} {ip : UInt32} {hostname : Bytes} {message : Message}
  {fuel : Nat} {state state' : State} {replies : List Reply}

def WithinCap (cfg : Config) (state : State) : Prop := state.leases.size ≤ cfg.maxLeaseEntriesEffective

theorem removeExpiredLeases_size_le (state : State) :
    (removeExpiredLeases state).leases.size ≤ state.leases.size :=
  Std.TreeMap.size_filter_le_size

/-- Whatever the answer is the table has not grown. Where it is yes there is room for the entry, and
nothing is counted as a refusal. -/
theorem canAddLeaseEntry_room {ok : Bool} (hcan : canAddLeaseEntry cfg ip state = (ok, state')) :
    state'.leases.size ≤ state.leases.size ∧
      (ok = true → (ip ∈ state'.leases ∨ state'.leases.size < cfg.maxLeaseEntriesEffective) ∧
        state'.leaseLimitRejects = state.leaseLimitRejects) := by
  have hpurged := removeExpiredLeases_size_le state
  unfold canAddLeaseEntry at hcan
  dsimp only at hcan
  split_ifs at hcan with hmem hfull hroom hroom
  all_goals
    cases hcan
  · exact ⟨le_rfl, fun _ ↦ ⟨.inl hmem, rfl⟩⟩
  · exact ⟨hpurged, fun _ ↦ ⟨.inr hroom, rfl⟩⟩
  · exact ⟨hpurged, fun hok ↦ Bool.noConfusion hok⟩
  · exact ⟨le_rfl, fun _ ↦ ⟨.inr hroom, rfl⟩⟩
  · exact ⟨le_rfl, fun hok ↦ Bool.noConfusion hok⟩

theorem insert_withinCap {lease : DhcpLease} (hcap : WithinCap cfg state)
    (hroom : ip ∈ state.leases ∨ state.leases.size < cfg.maxLeaseEntriesEffective) :
    WithinCap cfg { state with leases := state.leases.insert ip lease } := by
  unfold WithinCap at *
  rcases hroom with hmem | hroom
  · have hsame : (state.leases.insert ip lease).size = state.leases.size := by
      rw [Std.TreeMap.size_insert, if_pos (Std.TreeMap.contains_iff_mem.mpr hmem)]
    exact hsame ▸ hcap
  · exact le_trans Std.TreeMap.size_insert_le hroom

theorem writeReservation_room {ok : Bool}
    (hwrite : writeReservation cfg mac ip hostname state = (ok, state')) :
    (WithinCap cfg state → WithinCap cfg state') ∧
      (ok = true → state'.leaseLimitRejects = state.leaseLimitRejects) := by
  unfold writeReservation at hwrite
  rcases hcan : canAddLeaseEntry cfg ip state with ⟨added, purged⟩
  obtain ⟨hsize, hroom⟩ := canAddLeaseEntry_room hcan
  rw [hcan] at hwrite
  cases added with
  | false =>
    cases hwrite
    exact ⟨fun hcap ↦ le_trans hsize hcap, fun hok ↦ Bool.noConfusion hok⟩
  | true =>
    cases hwrite
    obtain ⟨hfree, hrejects⟩ := hroom rfl
    exact ⟨fun hcap ↦ insert_withinCap (le_trans hsize hcap) hfree, fun _ ↦ hrejects⟩

theorem reserveOffer_room {ok : Bool}
    (hreserve : reserveOffer cfg mac ip hostname state = (ok, state')) :
    (WithinCap cfg state → WithinCap cfg state') ∧
      (ok = true → state'.leaseLimitRejects = state.leaseLimitRejects) := by
  unfold reserveOffer at hreserve
  split at hreserve
  · rename_i lease hlease
    have hmem : ip ∈ state.leases := Std.TreeMap.mem_iff_isSome_getElem?.mpr (by simp [hlease])
    split_ifs at hreserve
    · cases hreserve
      exact ⟨fun hcap ↦ insert_withinCap hcap (.inl hmem), fun _ ↦ rfl⟩
    · exact writeReservation_room hreserve
  · exact writeReservation_room hreserve

theorem sendDhcpOffer_room (hsend : sendDhcpOffer fuel cfg net message state = some (state', replies)) :
    (WithinCap cfg state → WithinCap cfg state') ∧
      (replies ≠ [] → state'.leaseLimitRejects = state.leaseLimitRejects) := by
  simp only [sendDhcpOffer, Option.bind_eq_bind, Option.bind_eq_some_iff, Prod.exists] at hsend
  obtain ⟨ip, clockUs, -, hsend⟩ := hsend
  split_ifs at hsend
  · cases hsend
    exact ⟨id, fun _ ↦ rfl⟩
  · rcases hreserve : reserveOffer cfg message.chaddr ip message.clientName
      { state with clockUs } with ⟨ok, reserved⟩
    obtain ⟨hcap, hrejects⟩ := reserveOffer_room hreserve
    rw [hreserve] at hsend
    cases ok with
    | false =>
      cases hsend
      exact ⟨hcap, fun hsent ↦ absurd rfl hsent⟩
    | true =>
      cases hsend
      exact ⟨hcap, fun _ ↦ hrejects rfl⟩

theorem handleRequest_room (hhandle : handleRequest cfg net message state = (state', replies)) :
    (WithinCap cfg state → WithinCap cfg state') ∧ ((∀ reply ∈ replies, reply.msgType = kDhcpNak) ∨
        state'.leaseLimitRejects = state.leaseLimitRejects) := by
  unfold handleRequest at hhandle
  dsimp only at hhandle
  split_ifs at hhandle
  · rcases hdecide : decideRequest cfg net message.chaddr (assignedIp message) state with
      ⟨ack, clockUs⟩
    rw [hdecide] at hhandle
    cases ack with
    | false =>
      cases hhandle
      exact ⟨id, .inr rfl⟩
    | true =>
      rcases hcan : canAddLeaseEntry cfg (assignedIp message) { state with clockUs } with
        ⟨ok, purged⟩
      obtain ⟨hsize, hroom⟩ := canAddLeaseEntry_room hcan
      simp only [hcan] at hhandle
      cases ok with
      | false =>
        cases hhandle
        exact ⟨fun hcap ↦ le_trans hsize hcap, .inl (by simp [nakReply])⟩
      | true =>
        cases hhandle
        obtain ⟨hfree, hrejects⟩ := hroom rfl
        exact ⟨fun hcap ↦ insert_withinCap (le_trans hsize hcap) hfree, .inr hrejects⟩
  all_goals
    cases hhandle
    exact ⟨id, .inr rfl⟩

theorem handleDecline_size_le (message : Message) (state : State) :
    (handleDecline message state).leases.size ≤ state.leases.size := by
  unfold handleDecline
  split
  · split_ifs
    · exact Std.TreeMap.size_erase_le
    · exact le_rfl
  · exact le_rfl

theorem dispatch_room (hdispatch : dispatch fuel cfg net message state = some (state', replies)) :
    (WithinCap cfg state → WithinCap cfg state') ∧ ((∀ reply ∈ replies, reply.msgType = kDhcpNak) ∨
        state'.leaseLimitRejects = state.leaseLimitRejects) := by
  unfold dispatch at hdispatch
  split_ifs at hdispatch
  · obtain ⟨hcap, hrejects⟩ := sendDhcpOffer_room hdispatch
    by_cases hsent : replies = []
    · exact ⟨hcap, .inl (by simp [hsent])⟩
    · exact ⟨hcap, .inr (hrejects hsent)⟩
  · exact handleRequest_room (Option.some.inj hdispatch)
  · cases hdispatch
    exact ⟨fun hcap ↦ le_trans Std.TreeMap.size_erase_le hcap, .inr rfl⟩
  · cases hdispatch
    exact ⟨fun hcap ↦ le_trans (handleDecline_size_le message state) hcap, .inr rfl⟩
  · cases hdispatch
    exact ⟨id, .inr rfl⟩

theorem dispatch_refused (hdispatch : dispatch fuel cfg net message state = some (state', replies))
    (hrefused : state'.leaseLimitRejects ≠ state.leaseLimitRejects) :
    Purged (currentTimeSec state'.clockUs) state.leases state'.leases := by
  unfold dispatch at hdispatch
  split_ifs at hdispatch
  · obtain ⟨ip, -, ⟨-, -, hpurged⟩ | ⟨-, hsent, -⟩⟩ := sendDhcpOffer_spec hdispatch
    · exact hpurged
    · exact absurd ((sendDhcpOffer_room hdispatch).2 (by simp [hsent])) hrefused
  · obtain ⟨-, ⟨-, hpurged⟩ | ⟨purged, hsent, -⟩⟩ := handleRequest_spec (Option.some.inj hdispatch)
    · exact hpurged
    · rcases (handleRequest_room (Option.some.inj hdispatch)).2 with hnak | hsame
      · have hack := hnak _ (hsent ▸ List.mem_singleton_self _)
        exact absurd hack (by change kDhcpAck ≠ kDhcpNak; decide)
      · exact absurd hsame hrefused
  all_goals
    cases hdispatch
    exact absurd rfl hrefused

/-- A step of the server, or a clock that is set to any time. -/
inductive AnyClockStep (cfg : Config) : State → Option Event → State → Prop
  | step {state state' : State} {event : Event} :
      Step cfg state event state' → AnyClockStep cfg state (some event) state'
  | clock (state : State) (clockUs : Nat) : AnyClockStep cfg state none { state with clockUs }

theorem Step.withinCap {event : Event} (hstep : Step cfg state event state')
    (hcap : WithinCap cfg state) : WithinCap cfg state' := by
  cases hstep with
  | tick us => exact hcap
  | expire => exact le_trans (removeExpiredLeases_size_le state) hcap
  | receive hhandle =>
    unfold handleDhcpMessage at hhandle
    split at hhandle
    · cases hhandle
      exact hcap
    · exact (dispatch_room hhandle).1 hcap

theorem AnyClockStep.withinCap {event : Option Event} (hstep : AnyClockStep cfg state event state')
    (hcap : WithinCap cfg state) : WithinCap cfg state' := by
  cases hstep with
  | step hstep => exact hstep.withinCap hcap
  | clock clockUs => exact hcap

def RefusedByCap (state state' : State) : Prop := state'.leaseLimitRejects ≠ state.leaseLimitRejects

/-- What a message the cap turns away leaves behind: every entry in force, and no grant. -/
structure LeftAlone (state : State) (event : Event) (state' : State) : Prop where
  entries : ∀ (ip : UInt32) (lease : DhcpLease), state.leases[ip]? = some lease →
    currentTimeSec state'.clockUs < lease.expiry → state'.leases[ip]? = some lease
  replies : ∀ reply ∈ event.replies, reply.msgType ≠ kDhcpOffer ∧ reply.msgType ≠ kDhcpAck

theorem Step.leftAlone {event : Event} (hstep : Step cfg state event state')
    (hrefused : RefusedByCap state state') : LeftAlone state event state' := by
  cases hstep with
  | tick us => exact absurd rfl hrefused
  | expire => exact absurd rfl hrefused
  | @receive fuel net datagram _ _ replies hhandle =>
    unfold handleDhcpMessage at hhandle
    split at hhandle
    · cases hhandle
      exact absurd rfl hrefused
    · refine ⟨fun ip lease hlease hlive ↦ ?_, fun reply hreply ↦ ?_⟩
      · rcases dispatch_refused hhandle hrefused ip with hsame | ⟨-, expired, hexpired, hover⟩
        · exact hsame.trans hlease
        · obtain rfl := Option.some.inj (hlease.symm.trans hexpired)
          exact absurd hlive (not_lt.mpr hover)
      · have hnak := ((dispatch_room hhandle).2.resolve_right hrefused) reply hreply
        rw [hnak]
        decide

/-- The table stays within the cap in every run, and a message the cap turns away leaves every entry
in force as it is and grants nothing. -/
theorem lease_table_is_bounded {first state : State} {events : List (Option Event)}
    (hfirst : first.leases = ∅) (hrun : Run (AnyClockStep cfg) first events state) :
    state.leases.size ≤ cfg.maxLeaseEntriesEffective ∧
      ∀ event state', AnyClockStep cfg state (some event) state' → RefusedByCap state state' →
        LeftAlone state event state' := by
  have hempty : WithinCap cfg first := by simp [WithinCap, hfirst]
  refine ⟨hrun.preserves (fun _ _ _ hcap hstep ↦ hstep.withinCap hcap) hempty, ?_⟩
  intro event state' hstep hrefused
  cases hstep with
  | step hstep => exact hstep.leftAlone hrefused

def tinyConfig : Config := { homeConfig with maxLeaseEntriesEffective := 1 }

/-- The second client finds the table full. -/
theorem full_table_turns_away : ∃ (state state' : State) (event : Event),
    state.leases.size ≤ 1 ∧ RefusedByCap state state' ∧ LeftAlone state event state' := by
  let discover (mac : Mac) (host : UInt8) := asking kDhcpDiscover mac (dotted 192 168 1 host)
  have hreplay : ((perform 1 tinyConfig (.start 0) (discover macA 100)).any fun one ↦
      (perform 1 tinyConfig one.1 (discover macB 101)).any fun two ↦
        one.1.leaseLimitRejects == 0 && two.1.leaseLimitRejects == 1) = true := by
    decide +kernel
  simp only [Option.any_eq_true, Bool.and_eq_true, beq_iff_eq] at hreplay
  obtain ⟨⟨state, first⟩, hone, ⟨state', event⟩, htwo, hnone, hrefused⟩ := hreplay
  have hrun : Run (AnyClockStep tinyConfig) (.start 0) [some first] state :=
    .cons (.step (step_of_perform hone)) (.nil state)
  have hrejects : RefusedByCap state state' := by
    intro hsame
    exact absurd (hrefused.symm.trans (hsame.trans hnone)) (by decide)
  obtain ⟨hsize, hturned⟩ := lease_table_is_bounded rfl hrun
  exact ⟨state, state', event, hsize, hrejects,
    hturned event state' (.step (step_of_perform htwo)) hrejects⟩

end DhcpServer.Dhcp
