import DhcpServer.Dhcp.Exclusivity
import Mathlib.Data.List.Nodup

/-!
# Addresses bound to a client

A binding names an address for one client; it does not take the address out of the pool. What the
server keeps for the bound client alone is an address that the pool does not reach: one outside
the range that the scan of `selectIp` does not come to either.
-/

namespace DhcpServer.Dhcp

open Library

def DistinctBindings (cfg : Config) : Prop := (cfg.staticBindings.map StaticEntry.ip).Nodup

instance (cfg : Config) : Decidable (DistinctBindings cfg) := by
  unfold DistinctBindings
  infer_instance

/-- The pool reaches the address: it is in the range, or the scan comes to it. -/
def PoolReaches (cfg : Config) (ip : UInt32) : Prop := isIpInRange cfg ip = true ∨ Scanned cfg ip

/-- The reply grants the address: it is an OFFER or an ACK of it. -/
def Grants (reply : Reply) (ip : UInt32) : Prop :=
  (reply.msgType = kDhcpOffer ∨ reply.msgType = kDhcpAck) ∧ reply.yiaddr = ip

instance (reply : Reply) (ip : UInt32) : Decidable (Grants reply ip) := by
  unfold Grants
  infer_instance

variable {cfg : Config} {net : Net} {datagram : Datagram} {fuel : Nat} {state state' : State}
  {replies : List Reply} {event : Event} {ip : UInt32} {mac owner : Mac}

theorem DistinctBindings.mac_eq (hdistinct : DistinctBindings cfg)
    (howner : isStaticBindingForMac cfg owner ip)
    (hmac : isStaticBindingForMac cfg mac ip) : mac = owner := by
  simp only [isStaticBindingForMac, List.any_eq_true, Bool.and_eq_true, beq_iff_eq] at howner hmac
  obtain ⟨theirs, htheirs, ⟨-, htheirsIp⟩, rfl⟩ := howner
  obtain ⟨ours, hours, ⟨-, hoursIp⟩, rfl⟩ := hmac
  have hsame : ours = theirs :=
    List.inj_on_of_nodup_map hdistinct hours htheirs (hoursIp.trans htheirsIp.symm)
  rw [hsame]

/-- Every entry the table has on the address is the owner's. -/
def OwnedBy (ip : UInt32) (owner : Mac) (state : State) : Prop :=
  ∀ lease, state.leases[ip]? = some lease → lease.mac = owner

theorem OfferSource.mac_eq_owner {requestedIp : UInt32} {after : Nat}
    (hsource : OfferSource cfg net mac requestedIp state ip after) (hip : ip ≠ 0)
    (hdistinct : DistinctBindings cfg) (howner : isStaticBindingForMac cfg owner ip)
    (hpool : ¬ PoolReaches cfg ip) (howned : OwnedBy ip owner state) : mac = owner := by
  cases hsource with
  | fixed hfixed => exact hdistinct.mac_eq howner hfixed
  | requested hhonoured => exact absurd (.inl hhonoured.2.1) hpool
  | binding hfixed _ _ => exact hdistinct.mac_eq howner hfixed
  | own lease hlease hmac _ => exact hmac.symm.trans (howned lease hlease)
  | scanned hscanned _ _ => exact absurd (.inr hscanned) hpool
  | exhausted _ => exact absurd rfl hip

theorem Step.ownedBy (hstep : Step cfg state event state') (hdistinct : DistinctBindings cfg)
    (howner : isStaticBindingForMac cfg owner ip) (hpool : ¬ PoolReaches cfg ip)
    (howned : OwnedBy ip owner state) : OwnedBy ip owner state' := by
  intro lease hlease
  obtain hsame | ⟨hnone, -⟩ | ⟨net, datagram, message, -, -, hentry⟩ := hstep.entry ip
  · exact howned lease (hsame.symm.trans hlease)
  · exact absurd (hnone.symm.trans hlease) (by simp)
  · rw [hlease] at hentry
    generalize hold : state.leases[ip]? = old at hentry
    cases hentry with
    | same => exact howned lease hold
    | renamed kept _ _ _ hkept _ =>
      rw [DhcpLease.rename_mac]
      exact howned kept (hold.trans hkept)
    | reserved _ hip hsource _ =>
      exact hsource.mac_eq_owner hip hdistinct howner hpool howned
    | leased _ hvalid _ =>
      obtain hrange | hfixed := hvalid
      · exact absurd (.inl hrange) hpool
      · exact hdistinct.mac_eq howner hfixed

theorem Reachable.ownedBy (hreachable : Reachable cfg state) (hdistinct : DistinctBindings cfg)
    (howner : isStaticBindingForMac cfg owner ip) (hpool : ¬ PoolReaches cfg ip) :
    OwnedBy ip owner state := by
  obtain ⟨clockUs, events, hrun⟩ := hreachable
  have hfirst : OwnedBy ip owner (.start clockUs) := by
    intro lease hlease
    simp [State.start] at hlease
  exact hrun.preserves
    (fun _ _ _ howned hstep ↦ hstep.ownedBy hdistinct howner hpool howned) hfirst

/-- **Static reservation.** A bound address out of the pool's reach is granted to its owner only.
One the pool reaches is acknowledged to another client only while the table has no entry of a
third one, the owner included. -/
theorem bound_address_granted (hdistinct : DistinctBindings cfg)
    (hreachable : Reachable cfg state)
    (hhandle : handleDhcpMessage fuel cfg net datagram state = some (state', replies))
    (howner : isStaticBindingForMac cfg owner ip = true)
    {reply : Reply} (hreply : reply ∈ replies) (hgrants : Grants reply ip) :
    (¬ PoolReaches cfg ip → reply.chaddr = owner) ∧ (reply.msgType = kDhcpAck → reply.chaddr ≠ owner →
        ∀ lease, state.leases[ip]? = some lease → lease.mac = reply.chaddr) := by
  obtain ⟨htype, rfl⟩ := hgrants
  cases hmessage : admittedMessage cfg datagram with
  | none =>
    obtain ⟨-, rfl⟩ := handleDhcpMessage_none hmessage hhandle
    simp at hreply
  | some message =>
    rw [handleDhcpMessage_eq hmessage] at hhandle
    obtain hoffer | hack := htype
    · obtain ⟨-, hchaddr, hzero, hchoose, -⟩ := dispatch_offer hhandle hreply hoffer
      refine ⟨fun hpool ↦ ?_, fun hack ↦ absurd (hoffer.symm.trans hack) (by decide)⟩
      rw [hchaddr]
      exact (chooseOfferIp_source hchoose).mac_eq_owner hzero hdistinct howner hpool
        (hreachable.ownedBy hdistinct howner hpool)
    · obtain ⟨-, hchaddr, hvalid, hwhy, -⟩ := dispatch_ack hhandle hreply hack
      rw [← hchaddr] at hvalid hwhy
      constructor
      · intro hpool
        obtain hrange | hfixed := hvalid
        · exact absurd (.inl hrange) hpool
        · exact hdistinct.mac_eq howner hfixed
      · intro _ hother
        exact hwhy.resolve_left fun hfixed ↦ hother (hdistinct.mac_eq howner hfixed)

def boundConfig (ip : UInt32) : Config := { homeConfig with staticBindings := [{ mac := macB, ip }] }

/-- An address in the range is offered to whoever comes first, bound or not. -/
theorem bound_address_offered_to_other : DistinctBindings (boundConfig (dotted 192 168 1 100)) ∧
      isStaticBindingForMac (boundConfig (dotted 192 168 1 100)) macB (dotted 192 168 1 100) ∧
      ∃ state, Reachable (boundConfig (dotted 192 168 1 100)) state ∧ ∃ state' replies,
        handleDhcpMessage 1 (boundConfig (dotted 192 168 1 100)) silentNet
          (clientDatagram kDhcpDiscover macA 0 []) state = some (state', replies) ∧
        ∃ reply ∈ replies, Grants reply (dotted 192 168 1 100) ∧ reply.chaddr ≠ macB := by
  refine ⟨by decide, by decide, .start 0, ⟨0, [], .nil _⟩, ?_⟩
  have hreplay : ((handleDhcpMessage 1 (boundConfig (dotted 192 168 1 100)) silentNet
      (clientDatagram kDhcpDiscover macA 0 []) (.start 0)).any fun result ↦
        result.2.any fun reply ↦
          decide (Grants reply (dotted 192 168 1 100) ∧ reply.chaddr ≠ macB)) = true := by
    decide +kernel
  simp only [Option.any_eq_true, List.any_eq_true, decide_eq_true_eq] at hreplay
  obtain ⟨⟨state', replies⟩, hhandle, reply, hreply, hgrants⟩ := hreplay
  exact ⟨state', replies, hhandle, reply, hreply, hgrants⟩

theorem Scanned.mem_of_closed {visited : List UInt32} (hscanned : Scanned cfg ip)
    (hfirst : cfg.rangeStart ∈ visited)
    (hnext : ∀ ip ∈ visited, nextIp ip ≤ cfg.rangeEnd → nextIp ip ∈ visited) : ip ∈ visited := by
  induction hscanned with
  | first _ => exact hfirst
  | next _ hle ih => exact hnext _ ih hle

/-- The bound client is offered 192.168.1.42, which the pool does not reach. -/
theorem bound_address_granted_outside :
    ¬ PoolReaches (boundConfig (dotted 192 168 1 42)) (dotted 192 168 1 42) ∧
      ∃ state' replies, handleDhcpMessage 1 (boundConfig (dotted 192 168 1 42)) silentNet
          (clientDatagram kDhcpDiscover macB 0 []) (.start 0) = some (state', replies) ∧
        ∃ reply ∈ replies, Grants reply (dotted 192 168 1 42) ∧ reply.chaddr = macB := by
  have hpool : ¬ PoolReaches (boundConfig (dotted 192 168 1 42)) (dotted 192 168 1 42) := by
    rintro (hrange | hscanned)
    · exact absurd hrange (by decide)
    · let visited := (List.range 101).map fun i ↦ dotted 192 168 1 (100 + UInt8.ofNat i)
      have hclosed : (visited.all fun ip ↦ decide (nextIp ip ≤ dotted 192 168 1 200 →
          nextIp ip ∈ visited)) = true := by
        decide +kernel
      have hnext : ∀ ip ∈ visited, nextIp ip ≤ dotted 192 168 1 200 → nextIp ip ∈ visited :=
        fun ip hip ↦ of_decide_eq_true (List.all_eq_true.mp hclosed ip hip)
      have hmem : dotted 192 168 1 42 ∈ visited := hscanned.mem_of_closed (by decide) hnext
      exact absurd hmem (by decide +kernel)
  have hreplay : ((handleDhcpMessage 1 (boundConfig (dotted 192 168 1 42)) silentNet
      (clientDatagram kDhcpDiscover macB 0 []) (.start 0)).any fun result ↦
        result.2.any fun reply ↦ decide (Grants reply (dotted 192 168 1 42))) = true := by
    decide +kernel
  simp only [Option.any_eq_true, List.any_eq_true, decide_eq_true_eq] at hreplay
  obtain ⟨⟨state', replies⟩, hhandle, reply, hreply, hgrants⟩ := hreplay
  have howned := bound_address_granted (by decide) ⟨0, [], .nil _⟩ hhandle
    (by decide : isStaticBindingForMac _ macB (dotted 192 168 1 42) = true) hreply hgrants
  exact ⟨hpool, state', replies, hhandle, reply, hreply, hgrants, howned.1 hpool⟩

end DhcpServer.Dhcp
