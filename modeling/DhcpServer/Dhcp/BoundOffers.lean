import DhcpServer.Dhcp.Runs

/-!
# What a client with a binding is offered

The first step of `selectIp` passes a binding by when its address has an entry, also when it is the entry
of the client itself. The second step takes the first entry of the client in the order of the table. So
the bound address is offered unless it has an entry and another entry comes first.
-/

namespace DhcpServer.Dhcp

open Library List

variable {cfg : Config} {net : Net} {mac : Mac} {message : Message} {fuel : Nat} {state state' : State}
  {ip : UInt32} {lease : DhcpLease} {replies : List Reply} {reply : Reply} {entry : StaticEntry}

/-- Where the address has an entry, it is the client's, and the client has none before it in the table. -/
def FirstOfClient (state : State) (mac : Mac) (ip : UInt32) : Prop :=
  ∀ lease, state.leases[ip]? = some lease → lease.mac = mac ∧
    ∀ below < ip, ∀ other, state.leases[below]? = some other → other.mac ≠ mac

def OnlyBinding (cfg : Config) (mac : Mac) (entry : StaticEntry) : Prop :=
  cfg.staticBindings.filter (fun entry ↦ entry.enabled && entry.mac == mac) = [entry]

theorem ownEntry_spec (hown : ownEntry state mac = some (ip, lease)) :
    state.leases[ip]? = some lease ∧ lease.mac = mac ∧
      ∀ below < ip, ∀ other, state.leases[below]? = some other → other.mac ≠ mac := by
  obtain ⟨hmac, before, after, hlist, hbefore⟩ := find?_eq_some_iff_append.mp hown
  have hmem := Std.TreeMap.mem_toList_iff_getElem?_eq_some.mp (mem_of_find?_eq_some hown)
  refine ⟨hmem, by simpa using hmac, fun below hbelow other hother hsame ↦ ?_⟩
  have hordered : state.leases.toList.Pairwise fun left right ↦ compare left.1 right.1 = .lt :=
    Std.TreeMap.ordered_keys_toList
  rw [hlist] at hordered
  have hin : (below, other) ∈ before ++ (ip, lease) :: after :=
    hlist ▸ Std.TreeMap.mem_toList_iff_getElem?_eq_some.mpr hother
  rcases mem_append.mp hin with hfirst | hlater
  · have hnot := hbefore _ hfirst
    simp [hsame] at hnot
  · rcases mem_cons.mp hlater with heq | hafter
    · obtain ⟨rfl, -⟩ := Prod.mk.inj heq
      exact absurd hbelow (UInt32.lt_irrefl _)
    · have hlarger := (pairwise_cons.mp (pairwise_append.mp hordered).2.1).1 _ hafter
      exact absurd hbelow (UInt32.not_lt.mpr (UInt32.le_of_lt (Std.compare_eq_lt.mp hlarger)))

theorem ownEntry_eq_none (hown : ownEntry state mac = none) (hlease : state.leases[ip]? = some lease) :
    lease.mac ≠ mac := by
  have hmem := Std.TreeMap.mem_toList_iff_getElem?_eq_some.mpr hlease
  simpa using find?_eq_none.mp hown _ hmem

theorem freeBinding_eq_some (honly : OnlyBinding cfg mac entry) {found : StaticEntry}
    (hfree : freeBinding cfg state mac = some found) : found = entry ∧ entry.ip ∉ state.leases := by
  have hguard := find?_some hfree
  simp only [Bool.and_eq_true, Bool.not_eq_true', ← Bool.not_eq_true,
    Std.TreeMap.contains_iff_mem] at hguard
  have hmem : found ∈ cfg.staticBindings.filter fun entry ↦ entry.enabled && entry.mac == mac :=
    mem_filter.mpr ⟨mem_of_find?_eq_some hfree, by simpa using hguard.1⟩
  rw [honly] at hmem
  obtain rfl := mem_singleton.mp hmem
  exact ⟨rfl, hguard.2⟩

theorem freeBinding_eq_none (honly : OnlyBinding cfg mac entry) (hfree : freeBinding cfg state mac = none) :
    entry.ip ∈ state.leases := by
  have hmem : entry ∈ cfg.staticBindings.filter fun entry ↦ entry.enabled && entry.mac == mac :=
    honly ▸ mem_singleton_self _
  obtain ⟨hlisted, hmine⟩ := mem_filter.mp hmem
  have hno := find?_eq_none.mp hfree entry hlisted
  rw [← Std.TreeMap.contains_iff_mem]
  simpa [hmine] using hno

theorem selectIp_eq_binding_iff {clockUs after : Nat} (honly : OnlyBinding cfg mac entry)
    (hselect : selectIp fuel cfg net mac state clockUs = some (ip, after)) (hip : ip ≠ 0) :
    ip = entry.ip ↔ FirstOfClient state mac entry.ip := by
  unfold selectIp at hselect
  split at hselect
  · rename_i found hfree
    obtain ⟨rfl, hnone⟩ := freeBinding_eq_some honly hfree
    cases hselect
    refine iff_of_true rfl fun lease hlease ↦ ?_
    exact absurd (Std.TreeMap.mem_iff_isSome_getElem?.mpr (by simp [hlease])) hnone
  · rename_i hfree
    have hmem := freeBinding_eq_none honly hfree
    obtain ⟨held, hheld⟩ := Option.isSome_iff_exists.mp (Std.TreeMap.mem_iff_isSome_getElem?.mp hmem)
    split at hselect
    · rename_i first lease hown
      cases hselect
      obtain ⟨hlease, hmac, hleast⟩ := ownEntry_spec hown
      constructor
      · rintro rfl
        intro lease' hlease'
        obtain rfl := Option.some.inj (hlease.symm.trans hlease')
        exact ⟨hmac, hleast⟩
      · intro hfirst
        obtain ⟨hheldMac, hbelow⟩ := hfirst held hheld
        by_contra hne
        rcases UInt32.lt_or_lt_of_ne hne with hless | hmore
        · exact hbelow _ hless lease hlease hmac
        · exact hleast _ hmore held hheld hheldMac
    · rename_i hown
      obtain ⟨-, hzero | ⟨-, hunleased⟩⟩ := scanRange_spec Scanned.first hselect
      · exact absurd hzero hip
      · refine iff_of_false ?_ fun hfirst ↦ ?_
        · rintro rfl
          exact hunleased hmem
        · exact ownEntry_eq_none hown hheld (hfirst held hheld).1

/-- A bound client that asks for no address is offered the bound one exactly where it has no entry, or one
of the client that is its first. -/
theorem offer_of_bound_iff (honly : OnlyBinding cfg message.chaddr entry)
    (htype : message.msgType = kDhcpDiscover) (hask : message.requestedIp = 0)
    (hdispatch : dispatch fuel cfg net message state = some (state', replies)) (hreply : reply ∈ replies) :
    reply.yiaddr = entry.ip ↔ FirstOfClient state message.chaddr entry.ip := by
  unfold dispatch at hdispatch
  rw [if_pos htype] at hdispatch
  obtain ⟨ip, hchoose, ⟨hnone, -⟩ | ⟨hzero, rfl, -⟩⟩ := sendDhcpOffer_spec hdispatch
  · rw [hnone] at hreply
    cases hreply
  · obtain rfl := mem_singleton.mp hreply
    have hselect : selectIp fuel cfg net message.chaddr state state.clockUs = some (ip, state'.clockUs) := by
      rw [chooseOfferIp, hask] at hchoose
      simpa using hchoose
    exact selectIp_eq_binding_iff honly hselect hzero

def bindingOfB : StaticEntry := ⟨macB, dotted 192 168 1 150, true, true, true⟩

def bindingConfig : Config := { homeConfig with staticBindings := [bindingOfB] }

def discoverB : Message where
  msgType := kDhcpDiscover
  chaddr := macB
  xid := 1
  ciaddr := 0
  giaddr := 0
  requestedIp := 0
  serverId := 0
  clientName := []

/-- With an empty table the bound address is offered. -/
theorem offer_of_bound_at_start : ∃ state' reply,
    dispatch 1 bindingConfig silentNet discoverB (.start 0) = some (state', [reply]) ∧
      reply.yiaddr = bindingOfB.ip := by
  have hreplay : ((dispatch 1 bindingConfig silentNet discoverB (.start 0)).any fun outcome ↦
      outcome.2.length == 1) = true := by
    decide +kernel
  obtain ⟨⟨state', replies⟩, hdispatch, hlength⟩ := (Option.any_eq_true _ _).mp hreplay
  obtain ⟨reply, rfl⟩ := length_eq_one_iff.mp (beq_iff_eq.mp hlength)
  have honly : OnlyBinding bindingConfig discoverB.chaddr bindingOfB := rfl
  have hfirst : FirstOfClient (.start 0) macB bindingOfB.ip := fun lease hlease ↦ by
    rw [State.start, Std.TreeMap.getElem?_emptyc] at hlease
    cases hlease
  exact ⟨state', reply, hdispatch,
    (offer_of_bound_iff honly rfl rfl hdispatch (mem_singleton_self reply)).mpr hfirst⟩

/-- A server whose settings may change between any two steps. -/
def ReachableAnyhow (state : State) : Prop :=
  ∃ clockUs events, Run (fun before event after ↦ ∃ cfg, Step cfg before event after) (.start clockUs)
    events state

/-- The client leases 192.168.1.100, is bound to 192.168.1.150 and offered it. When it asks once more it
is offered the address it had. -/
theorem bound_client_is_offered_another_address :
    ¬ ∀ (cfg : Config) (net : Net) (fuel : Nat) (message : Message) (state state' : State)
      (replies : List Reply) (reply : Reply) (entry : StaticEntry),
      ReachableAnyhow state → OnlyBinding cfg message.chaddr entry → message.msgType = kDhcpDiscover →
      message.requestedIp = 0 →
      (∀ lease, state.leases[entry.ip]? = some lease → lease.mac ≠ message.chaddr →
        lease.expiry ≤ currentTimeSec state.clockUs) →
      dispatch fuel cfg net message state = some (state', replies) → reply ∈ replies →
      reply.yiaddr = entry.ip := by
  intro hclaim
  let again : Input := .receive silentNet (clientDatagram kDhcpDiscover macB 0 [])
  have hreplay : ((perform 1 homeConfig (.start 0) (asking kDhcpRequest macB (dotted 192 168 1 100))).any
      fun one ↦ (perform 1 bindingConfig one.1 again).any
        fun two ↦ (dispatch 1 bindingConfig silentNet discoverB two.1).any fun three ↦
          two.1.leases[bindingOfB.ip]?.all (fun lease ↦ lease.mac == macB) &&
            three.2.any fun reply ↦ reply.yiaddr == dotted 192 168 1 100) = true := by
    decide +kernel
  simp only [Option.any_eq_true, any_eq_true, Bool.and_eq_true, beq_iff_eq] at hreplay
  obtain ⟨⟨first, leased⟩, hone, ⟨state, offered⟩, htwo, ⟨state', replies⟩, hthree, hmine, reply, hreply,
    haddress⟩ := hreplay
  have hreachable : ReachableAnyhow state := by
    refine ⟨0, [leased, offered], .cons ⟨homeConfig, step_of_perform hone⟩ ?_⟩
    exact .cons ⟨bindingConfig, step_of_perform htwo⟩ (.nil state)
  have hunheld : ∀ lease, state.leases[bindingOfB.ip]? = some lease → lease.mac ≠ discoverB.chaddr →
      lease.expiry ≤ currentTimeSec state.clockUs := by
    intro lease hlease hother
    rw [hlease, Option.all_some, beq_iff_eq] at hmine
    exact absurd hmine hother
  have hbound := hclaim bindingConfig silentNet 1 discoverB state state' replies reply bindingOfB hreachable
    rfl rfl rfl hunheld hthree hreply
  rw [haddress] at hbound
  revert hbound
  decide +kernel

end DhcpServer.Dhcp
