import DhcpServer.Dns.ForwardSlots

/-!
# Results and the queries they answer

A lookup result names its query by the slot number alone. The number is enough as long as a slot
that starts to wait for the cache has no lookup of another query outstanding under its number, and
the name it asks for fits the request. Then at every moment each outstanding lookup of a waiting
slot asks for what the slot holds.
-/

namespace DhcpServer.Dns.ExternalCache

open Library

def Worker.outstanding : Worker → List LookupRequest
  | .lookingUp request => [request]
  | .delivering request _ => [request]
  | _ => []

def State.outstanding (state : State) : List LookupRequest :=
  state.calls.map Submission.request ++ (state.queue ++ (state.worker.outstanding ++
    state.results.map Delivery.request))

variable {state state' : State} {action : Action} {request : LookupRequest}

theorem mem_outstanding : request ∈ state.outstanding ↔ (∃ call ∈ state.calls, call.request = request) ∨
      request ∈ state.queue ∨ request ∈ state.worker.outstanding ∨
      ∃ delivery ∈ state.results, delivery.request = request := by
  simp [State.outstanding]

theorem proceed_outstanding {index : Nat} {call : Submission}
    (hcall : state.calls[index]? = some call)
    (hrequest : request ∈ (state.proceed index call).outstanding) : request ∈ state.outstanding := by
  have hmem : call ∈ state.calls := List.mem_of_getElem? hcall
  have hcalls (other : Submission) (phase : Phase)
      (hother : other ∈ state.calls.set index { call with phase }) :
      ∃ known ∈ state.calls, known.request = other.request := by
    rcases List.mem_or_eq_of_mem_set hother with hold | rfl
    · exact ⟨other, hold, rfl⟩
    · exact ⟨call, hmem, rfl⟩
  rw [mem_outstanding] at hrequest ⊢
  unfold State.proceed at hrequest
  repeat' split at hrequest
  all_goals grind [List.mem_of_mem_eraseIdx]

theorem submitLookup_outstanding {domain : Bytes} {type : UInt16} {token : UInt8}
    (hrequest : request ∈ (state.submitLookup domain type token).outstanding) :
    request ∈ state.outstanding ∨
      request = ⟨token, type, strncpy (kDomainBytes - 1) (normalizeDomain domain)⟩ := by
  unfold State.submitLookup at hrequest
  repeat' split at hrequest
  all_goals simp only [mem_outstanding] at hrequest ⊢
  all_goals grind

theorem step_outstanding (hstep : state.step action = some state')
    (hsubmit : ∀ domain type slot, action ≠ .submit domain type slot)
    (hrequest : request ∈ state'.outstanding) : request ∈ state.outstanding := by
  cases action with
  | submit domain type slot => exact absurd rfl (hsubmit domain type slot)
  | proceed index =>
    obtain ⟨call, hcall, rfl⟩ := Option.map_eq_some_iff.mp hstep
    exact proceed_outstanding hcall hrequest
  | configure settings =>
    cases hstep
    exact hrequest
  | receive =>
    simp only [State.step] at hstep
    rw [mem_outstanding] at hrequest ⊢
    grind [Worker.outstanding]
  | complete answers =>
    simp only [State.step] at hstep
    rw [mem_outstanding] at hrequest ⊢
    grind [Worker.outstanding]
  | deliver arrives =>
    simp only [State.step] at hstep
    rw [mem_outstanding] at hrequest ⊢
    grind [Worker.outstanding]
  | drain =>
    simp only [State.step] at hstep
    rw [mem_outstanding] at hrequest ⊢
    grind [Worker.outstanding]

def TokensEcho (state : State) : Prop :=
  ∀ delivery ∈ state.results, delivery.result.token = delivery.request.token

theorem step_tokensEcho (hstep : state.step action = some state') (hecho : TokensEcho state) :
    TokensEcho state' := by
  have hresults : ∀ delivery ∈ state'.results, delivery ∈ state.results ∨
      ∃ request found, delivery = ⟨request, lookupResult request found⟩ := by
    intro delivery hdelivery
    cases action with
    | submit domain type slot =>
      cases hstep
      unfold State.submitLookup at hdelivery
      grind
    | proceed index =>
      obtain ⟨call, -, rfl⟩ := Option.map_eq_some_iff.mp hstep
      unfold State.proceed at hdelivery
      grind
    | _ =>
      simp only [State.step] at hstep
      grind
  intro delivery hdelivery
  obtain hold | ⟨request, found, rfl⟩ := hresults delivery hdelivery
  · exact hecho delivery hold
  · rfl

end DhcpServer.Dns.ExternalCache

namespace DhcpServer.Dns.ForwardSlots

open Library

open ExternalCache (LookupRequest Delivery kMaxPendingForwards kDomainBytes normalizeDomain
  TokensEcho onSettings)

variable {state state' : State} {event : Event} {outputs : List Output}

/-- The lookup is the one for the slot's query: the normalised name and the type. -/
def AskedFor (request : LookupRequest) (slot : PendingForward) : Prop :=
  request.domain = normalizeDomain slot.domain ∧ request.type = slot.qtype

/-- Every lookup result that is stored or sent goes to the query it was asked for. -/
def ResultsMatch (outputs : List Output) : Prop :=
  ∀ output ∈ outputs, ∀ request, output.source = .lookup request → AskedFor request output.slot

/-- A query that starts to wait for the cache has a name that fits the request, and takes a slot
under whose number only lookups of the same name and type are outstanding. -/
def SlotFresh (state : State) : Action → Prop
  | .query query degraded _ =>
    state.checksCache query degraded = true → ∀ index, state.allocPendingSlot = some index →
      0 ∉ normalizeDomain query.domain ∧ (normalizeDomain query.domain).length < kDomainBytes ∧
      ∀ request ∈ state.cache.outstanding, request.token.toNat = index →
        AskedFor request (pendingForward query state.nowMs)
  | _ => True

structure FreshStep (state : State) (event : Event) (state' : State) : Prop where
  step : Step state event state'
  fresh : SlotFresh state event.action

/-- The invariant: what is outstanding under the number of a waiting slot is the slot's own. -/
structure Correlated (state : State) : Prop where
  tokens : TokensEcho state.cache
  matched : ∀ index < kMaxPendingForwards, (state.slots index).active = true →
    (state.slots index).waitingCache = true → ∀ request ∈ state.cache.outstanding,
      request.token.toNat = index → AskedFor request (state.slots index)

structure Settles (state state' : State) : Prop where
  slots : ∀ index, (state'.slots index).active = true → (state'.slots index).waitingCache = true →
    state'.slots index = state.slots index
  outstanding : ∀ request ∈ state'.cache.outstanding, request ∈ state.cache.outstanding
  results : ∀ delivery ∈ state'.cache.results, delivery ∈ state.cache.results

theorem Settles.refl (state : State) : Settles state state := ⟨fun _ _ _ ↦ rfl, fun _ h ↦ h, fun _ h ↦ h⟩

theorem Settles.correlated (hsettles : Settles state state') (hcorrelated : Correlated state) :
    Correlated state' := by
  refine ⟨fun delivery hmem ↦ hcorrelated.tokens delivery (hsettles.results delivery hmem), ?_⟩
  intro index hindex hactive hwaiting request hrequest htoken
  have hsame := hsettles.slots index hactive hwaiting
  rw [hsame] at hactive hwaiting ⊢
  exact hcorrelated.matched index hindex hactive hwaiting request
    (hsettles.outstanding request hrequest) htoken

theorem Settles.setSlot (state : State) (index : Nat) {slot : PendingForward}
    (hslot : slot.active → slot.waitingCache = false) :
    Settles state (state.setSlot index slot) := by
  refine ⟨fun other hactive hwaiting ↦ ?_, fun _ h ↦ h, fun _ h ↦ h⟩
  by_cases hother : other = index
  · simp only [State.setSlot, hother, if_true] at hactive hwaiting
    simp [hslot hactive] at hwaiting
  · simp [State.setSlot, hother]

@[simp]
theorem setSlot_slots (state : State) (index : Nat) (slot : PendingForward) :
    (state.setSlot index slot).slots index = slot := by
  simp [State.setSlot]

@[simp]
theorem setSlot_setSlot (state : State) (index : Nat) (first second : PendingForward) :
    (state.setSlot index first).setSlot index second = state.setSlot index second := by
  unfold State.setSlot
  congr
  funext other
  by_cases hother : other = index <;> simp [hother]

theorem Settles.freePendingSlot (state : State) (index : Nat) :
    Settles state (state.freePendingSlot index) :=
  .setSlot state index fun h ↦ by simp at h

variable {index : Nat} {opened : Option Nat}

theorem startForward_settles
    (hstart : state.startForward index opened = some state') : Settles state state' := by
  unfold State.startForward at hstart
  dsimp only at hstart
  split_ifs at hstart
  obtain ⟨fd, -, rfl⟩ := Option.map_eq_some_iff.mp hstart
  exact .setSlot state index fun _ ↦ rfl

theorem resultsMatch_nil : ResultsMatch [] := fun _ h ↦ absurd h List.not_mem_nil

theorem forwardOrExpire_spec (hforward : state.forwardOrExpire index opened = (state', outputs)) :
    Settles state state' ∧ ResultsMatch outputs := by
  unfold State.forwardOrExpire at hforward
  split at hforward
  · rename_i forwarded hstart
    cases hforward
    exact ⟨startForward_settles hstart, resultsMatch_nil⟩
  · cases hforward
    exact ⟨.freePendingSlot state index, by simp [ResultsMatch, Output.source]⟩

theorem handleUpstream_spec {received : Option UpstreamReply}
    (hupstream : state.handleUpstream index received = (state', outputs)) :
    Settles state state' ∧ ResultsMatch outputs := by
  cases hupstream
  refine ⟨.freePendingSlot state index, ?_⟩
  have hupstream : ∀ output ∈ (state.handleUpstream index received).2, output.source = .upstream := by
    intro output houtput
    unfold State.handleUpstream at houtput
    cases received.filter (fun reply ↦ !reply.bytes.isEmpty) <;> grind [Output.source]
  intro output houtput request hsource
  rw [hupstream output houtput] at hsource
  exact Source.noConfusion hsource

theorem handleResult_spec {delivery : Delivery}
    (hresult : state.handleResult delivery opened = (state', outputs))
    (hasked : delivery.result.token.toNat < kMaxPendingForwards →
      (state.slots delivery.result.token.toNat).active →
      (state.slots delivery.result.token.toNat).waitingCache →
      AskedFor delivery.request (state.slots delivery.result.token.toNat)) :
    Settles state state' ∧ ResultsMatch outputs := by
  unfold State.handleResult at hresult
  dsimp only at hresult
  split_ifs at hresult with hrange hidle hmiss hempty havailable
  · cases hresult
    exact ⟨.refl state, resultsMatch_nil⟩
  · cases hresult
    exact ⟨.refl state, resultsMatch_nil⟩
  · exact forwardOrExpire_spec hresult
  · exact forwardOrExpire_spec hresult
  all_goals
    cases hresult
    refine ⟨.freePendingSlot state _, ?_⟩
    simp only [Bool.or_eq_true, Bool.not_eq_true', not_or, Bool.not_eq_false] at hidle
    have hslot := hasked (not_le.mp hrange) hidle.1 hidle.2
    intro output houtput request hsource
    simp only [List.singleton_append, List.nil_append, List.mem_cons, List.not_mem_nil, or_false] at houtput
  · rcases houtput with rfl | rfl
    all_goals
      obtain rfl := Source.lookup.inj hsource
      exact hslot
  · subst houtput
    obtain rfl := Source.lookup.inj hsource
    exact hslot

theorem allocPendingSlot_lt (halloc : state.allocPendingSlot = some index) : index < kMaxPendingForwards :=
  List.mem_range.mp (List.mem_of_find?_eq_some halloc)

theorem handleQuery_spec {query : Query} {degraded : Bool}
    (hquery : state.handleQuery query degraded opened = (state', outputs))
    (hfresh : SlotFresh state (.query query degraded opened)) (hcorrelated : Correlated state) :
    Correlated state' ∧ ResultsMatch outputs := by
  have hserver (slot : PendingForward) : ResultsMatch [.replied slot .nxdomain .server] := by
    simp [ResultsMatch, Output.source]
  unfold State.handleQuery at hquery
  dsimp only at hquery
  split at hquery
  · cases hquery
    exact ⟨hcorrelated, hserver _⟩
  · rename_i index halloc
    split_ifs at hquery with hchecks
    · cases hquery
      obtain ⟨hzero, hlength, hown⟩ := hfresh hchecks index halloc
      refine ⟨⟨?_, ?_⟩, resultsMatch_nil⟩
      · have hsubmit : state.cache.step (.submit query.domain query.qtype
            ⟨index, allocPendingSlot_lt halloc⟩) = some (state.cache.submitLookup query.domain
              query.qtype (UInt8.ofNat index)) := rfl
        exact ExternalCache.step_tokensEcho hsubmit hcorrelated.tokens
      · intro other hother hactive hwaiting request hrequest htoken
        obtain hold | hnew := ExternalCache.submitLookup_outstanding hrequest
        · by_cases hsame : other = index
          · subst hsame
            simpa [State.setSlot] using hown request hold htoken
          · simp only [State.setSlot, hsame, if_false] at hactive hwaiting ⊢
            exact hcorrelated.matched other hother hactive hwaiting request hold htoken
        · -- the lookup just submitted carries the number of the slot just taken
          have hname : request.domain = normalizeDomain query.domain := by
            rw [hnew]
            apply strncpy_eq_self hzero
            omega
          have hindex : index = other := by
            have hlt : index < 32 := allocPendingSlot_lt halloc
            rw [← htoken, hnew]
            simp only [UInt8.toNat_ofNat']
            omega
          subst hindex
          refine ⟨?_, ?_⟩
          · simpa [State.setSlot, pendingForward] using hname
          · simp [State.setSlot, pendingForward, hnew]
    · -- without the cache the slot never waits
      split at hquery
      · rename_i forwarded hstart
        cases hquery
        refine ⟨Settles.correlated ?_ hcorrelated, resultsMatch_nil⟩
        unfold State.startForward at hstart
        dsimp only at hstart
        split_ifs at hstart
        obtain ⟨fd, -, rfl⟩ := Option.map_eq_some_iff.mp hstart
        rw [setSlot_setSlot]
        exact .setSlot state index fun _ ↦ rfl
      · cases hquery
        refine ⟨Settles.correlated ?_ hcorrelated, hserver _⟩
        rw [State.freePendingSlot, setSlot_setSlot]
        exact .setSlot state index fun h ↦ by simp at h

theorem Settles.drain {delivery : Delivery} {results : List Delivery}
    (hresults : state.cache.results = delivery :: results) :
    Settles state { state with cache := { state.cache with results } } := by
  have hdrain : state.cache.step .drain = some { state.cache with results } := by
    simp [ExternalCache.State.step, hresults]
  refine ⟨fun _ _ _ ↦ rfl, fun request hrequest ↦ ?_, fun other hother ↦ ?_⟩
  · exact ExternalCache.step_outstanding hdrain (by simp) hrequest
  · rw [hresults]
    exact List.mem_cons_of_mem delivery hother

/-- One step: results go where they were asked for, and the invariant is kept. -/
theorem FreshStep.correlated (hstep : FreshStep state event state')
    (hcorrelated : Correlated state) : Correlated state' ∧ ResultsMatch event.outputs := by
  obtain ⟨hstep, hfresh⟩ := hstep
  obtain ⟨action, outputs⟩ := event
  have hsettled (h : Settles state state' ∧ ResultsMatch outputs) :
      Correlated state' ∧ ResultsMatch outputs := ⟨h.1.correlated hcorrelated, h.2⟩
  simp only [Step] at hstep
  cases action with
  | tick ms =>
    cases hstep
    exact hsettled ⟨⟨fun _ _ _ ↦ rfl, fun _ h ↦ h, fun _ h ↦ h⟩, resultsMatch_nil⟩
  | setInternalCache available =>
    cases hstep
    exact hsettled ⟨⟨fun _ _ _ ↦ rfl, fun _ h ↦ h, fun _ h ↦ h⟩, resultsMatch_nil⟩
  | cache action =>
    simp only [State.step] at hstep
    split_ifs at hstep with hown
    obtain ⟨cache, hcache, heq⟩ := Option.map_eq_some_iff.mp hstep
    cases heq
    have hsubmit : ∀ domain type slot, action ≠ .submit domain type slot := by
      rintro domain type slot rfl
      exact hown rfl
    refine ⟨⟨ExternalCache.step_tokensEcho hcache hcorrelated.tokens, ?_⟩, resultsMatch_nil⟩
    intro index hindex hactive hwaiting request hrequest
    apply hcorrelated.matched index hindex hactive hwaiting request
    exact ExternalCache.step_outstanding hcache hsubmit hrequest
  | cacheTimeout index opened =>
    simp only [State.step] at hstep
    split_ifs at hstep
    exact hsettled (forwardOrExpire_spec (Option.some.inj hstep))
  | upstream index received =>
    simp only [State.step] at hstep
    split_ifs at hstep
    exact hsettled (handleUpstream_spec (Option.some.inj hstep))
  | forwardTimeout index =>
    simp only [State.step] at hstep
    split_ifs at hstep
    cases hstep
    exact hsettled ⟨.freePendingSlot state index, by simp [ResultsMatch, Output.source]⟩
  | result opened =>
    simp only [State.step] at hstep
    split at hstep
    case h_2 => simp at hstep
    rename_i delivery results hresults
    split_ifs at hstep
    have hpopped := Settles.drain hresults
    have hmem : delivery ∈ state.cache.results := by simp [hresults]
    have hrequest : delivery.request ∈ state.cache.outstanding := by
      rw [ExternalCache.mem_outstanding]
      exact .inr (.inr (.inr ⟨delivery, hmem, rfl⟩))
    obtain ⟨hsettles, hmatch⟩ := handleResult_spec (Option.some.inj hstep)
      fun hindex hactive hwaiting ↦ hcorrelated.matched _ hindex hactive hwaiting _ hrequest
        (by rw [hcorrelated.tokens delivery hmem])
    exact ⟨hsettles.correlated (hpopped.correlated hcorrelated), hmatch⟩
  | query query degraded opened =>
    simp only [State.step] at hstep
    split_ifs at hstep
    exact handleQuery_spec (Option.some.inj hstep) hfresh hcorrelated

/-- **Correlation.** In a run that gives a waiting slot only fresh numbers and names that fit, every
result that is stored or sent is used for the name and type it was looked up for. -/
theorem resultsMatch_of_run {settings : ExternalCache.Settings} {available : Bool}
    {events : List Event} (hrun : Run FreshStep (.start settings available) events state) :
    ∀ event ∈ events, ResultsMatch event.outputs := by
  have hstart : Correlated (.start settings available) :=
    ⟨fun _ h ↦ absurd h List.not_mem_nil, fun _ _ hactive ↦ by simp [State.start] at hactive⟩
  generalize State.start settings available = first at hrun hstart
  induction hrun with
  | nil => exact fun _ h ↦ absurd h List.not_mem_nil
  | @cons first middle last event events hstep _ ih =>
    obtain ⟨hcorrelated, hmatch⟩ := hstep.correlated hstart
    intro other hother
    rcases List.mem_cons.mp hother with rfl | hlater
    · exact hmatch
    · exact ih hcorrelated other hlater

def letterQuery (qid : UInt16) (index : Nat) : Query :=
  ⟨⟨0, 1024⟩, qid, ExternalCache.kTypeA, 1, ExternalCache.letter index, [0]⟩

/-- The lookup for the first name is slow. Its slot times out, is answered upstream and freed, and
is taken by a query for a second name before the result arrives. -/
def lateResult : List Action :=
  [.query (letterQuery 1 0) false none, .cache (.proceed 0), .cache .receive, .tick 2000,
    .cacheTimeout 0 (some 5), .upstream 0 (some ⟨[0], [], 0⟩),
    .query (letterQuery 2 1) false none, .cache (.proceed 0),
    .cache (.complete [[0x31]]), .cache (.deliver true), .result none]

/-- The first name's addresses are stored for the second name and sent to its client. -/
theorem resultsMatch_fails : ∃ events last, Run Step (.start onSettings true) events last ∧
      ∃ event ∈ events, ¬ ResultsMatch event.outputs := by
  have hreplay : (((State.start onSettings true).steps lateResult).any fun result ↦
      result.2.any fun event ↦ event.outputs.any fun output ↦
        decide (output.source = .lookup ⟨0, ExternalCache.kTypeA, ExternalCache.letter 0⟩) &&
          decide (output.slot.domain = ExternalCache.letter 1)) = true := by
    decide +kernel
  simp only [Option.any_eq_true, List.any_eq_true, Bool.and_eq_true, decide_eq_true_eq] at hreplay
  obtain ⟨⟨last, events⟩, hsteps, event, hevent, output, houtput, hsource, hdomain⟩ := hreplay
  refine ⟨events, last, run_of_steps hsteps, event, hevent, fun hmatch ↦ ?_⟩
  have hasked := (hmatch output houtput _ hsource).1
  rw [hdomain] at hasked
  exact absurd hasked (by decide)

theorem freshRun_of_run {events : List Event} (hrun : Run Step state events state')
    (hqueries : ∀ event ∈ events, ∀ query degraded opened,
      event.action ≠ .query query degraded opened) : Run FreshStep state events state' := by
  induction hrun with
  | nil state => exact .nil state
  | @cons first middle last event events hstep _ ih =>
    have hfresh : SlotFresh first event.action := by
      have hquery := hqueries event List.mem_cons_self
      unfold SlotFresh
      split
      · rename_i haction
        exact absurd haction (hquery _ _ _)
      · trivial
    exact .cons ⟨hstep, hfresh⟩ (ih fun later hlater ↦ hqueries later (List.mem_cons_of_mem _ hlater))

/-- One query, looked up and answered from the external cache with its own addresses. -/
theorem resultsMatch_of_run_hit : ∃ events last, Run FreshStep (.start onSettings true) events last ∧
      (∃ event ∈ events, ∃ output ∈ event.outputs,
        output.source = .lookup ⟨0, ExternalCache.kTypeA, ExternalCache.letter 0⟩) ∧
      ∀ event ∈ events, ResultsMatch event.outputs := by
  let first := (State.start onSettings true).handleQuery (letterQuery 1 0) false none
  let rest : List Action :=
    [.cache (.proceed 0), .cache .receive, .cache (.complete [[0x31]]), .cache (.deliver true),
      .result none]
  have hreplay : ((first.1.steps rest).any fun result ↦
      (result.2.map Event.action == rest) && result.2.any fun event ↦ event.outputs.any fun output ↦
        decide (output.source = .lookup ⟨0, ExternalCache.kTypeA, ExternalCache.letter 0⟩)) =
          true := by
    decide +kernel
  simp only [Option.any_eq_true, List.any_eq_true, Bool.and_eq_true, beq_iff_eq,
    decide_eq_true_eq] at hreplay
  obtain ⟨⟨last, events⟩, hsteps, hactions, event, hevent, output, houtput, hsource⟩ := hreplay
  have hqueries : ∀ event ∈ events, ∀ query degraded opened,
      event.action ≠ .query query degraded opened := by
    intro event hevent query degraded opened haction
    have hmem : Action.query query degraded opened ∈ rest := by
      rw [← haction, ← show events.map Event.action = rest from hactions]
      exact List.mem_map_of_mem hevent
    simp [rest] at hmem
  have hfresh : SlotFresh (.start onSettings true) (.query (letterQuery 1 0) false none) := by
    refine fun _ index _ ↦ ⟨by decide, by decide, fun request hrequest ↦ ?_⟩
    exact absurd hrequest List.not_mem_nil
  have hfirst : FreshStep (.start onSettings true)
      ⟨.query (letterQuery 1 0) false none, first.2⟩ first.1 := ⟨rfl, hfresh⟩
  have hrun := Run.cons hfirst (freshRun_of_run (run_of_steps hsteps) hqueries)
  exact ⟨_, last, hrun, ⟨event, List.mem_cons_of_mem _ hevent, output, houtput, hsource⟩,
    resultsMatch_of_run hrun⟩

end DhcpServer.Dns.ForwardSlots
