import DhcpServer.Dns.ExternalCache
import Mathlib.Data.List.Perm.Basic

/-!
# Which lookups are pending

A mark in the table of pending domains stands for a request that is on its way: in the hands of a
`submitLookup` call, in the queue, or with the worker. The bookkeeping holds as a bijection, mark
by mark, as long as every new request finds room in the table. Without room the request goes
unmarked, and a queue that fills up that way drops a request whose mark then stays for good.
-/

namespace DhcpServer.Dns.ExternalCache

open Library List

variable {state state' : State} {action : Action}

def Worker.request : Worker → List LookupRequest
  | .lookingUp request => [request]
  | _ => []

/-- Requests on their way: handed in, queued, being looked up. -/
def State.openRequests (state : State) : List LookupRequest :=
  state.calls.map Submission.request ++ (state.queue ++ state.worker.request)

/-- The marked domains are exactly those with a request on its way. -/
def MarksExact (state : State) : Prop :=
  ∀ domain, domain ∈ state.pendingDomains ↔ ∃ request ∈ state.openRequests, request.domain = domain

/-- The table has room for the domain, or it is marked already. -/
def FindsRoom (state : State) : Action → Prop
  | .submit domain _ _ => cString (normalizeDomain domain) ∈ state.pendingDomains ∨
      state.pendingDomains.length < kMaxPendingDomains
  | _ => True

instance (state : State) : (action : Action) → Decidable (FindsRoom state action)
  | .submit domain _ _ =>
    inferInstanceAs (Decidable (cString (normalizeDomain domain) ∈ state.pendingDomains ∨
      state.pendingDomains.length < kMaxPendingDomains))
  | .configure _ | .proceed _ | .receive | .complete _ | .deliver _ | .drain =>
    inferInstanceAs (Decidable True)

structure RoomyStep (state : State) (action : Action) (state' : State) : Prop where
  step : Step state action state'
  room : FindsRoom state action

/-- A request as `submitLookup` makes it: its domain is a C string, its token a slot number. -/
structure WellFormed (request : LookupRequest) : Prop where
  domain : cString request.domain = request.domain
  token : request.token ≠ kQueueStopToken

/-- One mark for each request on its way, and no call past its first attempt at the queue. -/
structure Bookkept (state : State) : Prop where
  marks : state.pendingDomains.Perm (state.openRequests.map LookupRequest.domain)
  room : state.openRequests.length ≤ kMaxPendingDomains
  phases : ∀ call ∈ state.calls, call.phase = .marked
  wellFormed : ∀ request ∈ state.openRequests, WellFormed request

theorem Bookkept.marksExact (hbooks : Bookkept state) : MarksExact state := by
  intro domain
  rw [hbooks.marks.mem_iff, mem_map]

theorem markPending_spec {domain : Bytes} {pendingDomains marked : List Bytes}
    (hmark : markPending domain pendingDomains = some marked)
    (hroom : cString domain ∈ pendingDomains ∨ pendingDomains.length < kMaxPendingDomains) :
    pendingDomains.length < kMaxPendingDomains ∧
      marked = pendingDomains ++ [strncpy (kDomainBytes - 1) domain] := by
  unfold markPending at hmark
  split_ifs at hmark with hpending hfull
  · exact ⟨hfull, (Option.some.inj hmark).symm⟩
  · exact absurd (hroom.resolve_left hpending) hfull

/-- `submitLookup` does nothing, or marks the domain and goes on with a well-formed request. -/
theorem submitLookup_spec (domain : Bytes) (type : UInt16) (token : UInt8)
    (hroom : cString (normalizeDomain domain) ∈ state.pendingDomains ∨
      state.pendingDomains.length < kMaxPendingDomains) :
    state.submitLookup domain type token = state ∨
      ∃ request : LookupRequest, cString request.domain = request.domain ∧
        request.token = token ∧ state.pendingDomains.length < kMaxPendingDomains ∧
        state.submitLookup domain type token =
          { state with
            pendingDomains := state.pendingDomains ++ [request.domain]
            calls := state.calls ++ [⟨request, .marked⟩] } := by
  unfold State.submitLookup
  dsimp only
  split_ifs
  · exact .inl rfl
  · exact .inl rfl
  · split
    · exact .inl rfl
    · rename_i marked hmark
      obtain ⟨hfree, rfl⟩ := markPending_spec hmark hroom
      exact .inr ⟨⟨token, type, _⟩, cString_strncpy _ _, rfl, hfree, rfl⟩

section

variable (hbooks : Bookkept state)
include hbooks

theorem Bookkept.of_perm
    (hmarks : state'.pendingDomains = state.pendingDomains)
    (hopen : state'.openRequests.Perm state.openRequests)
    (hcalls : ∀ call ∈ state'.calls, call ∈ state.calls) : Bookkept state' where
  marks := by
    rw [hmarks]
    exact hbooks.marks.trans (hopen.map _).symm
  room := by
    rw [hopen.length_eq]
    exact hbooks.room
  phases call hcall := hbooks.phases call (hcalls call hcall)
  wellFormed request hrequest := hbooks.wellFormed request (hopen.mem_iff.mp hrequest)

theorem Bookkept.submit {request : LookupRequest}
    (hrequest : WellFormed request) (hfree : state.pendingDomains.length < kMaxPendingDomains) :
    Bookkept { state with
      pendingDomains := state.pendingDomains ++ [request.domain]
      calls := state.calls ++ [⟨request, .marked⟩] } := by
  have hopen : (State.openRequests { state with
      pendingDomains := state.pendingDomains ++ [request.domain]
      calls := state.calls ++ [⟨request, .marked⟩] }).Perm (request :: state.openRequests) := by
    simp only [State.openRequests, map_append, map_cons, map_nil, append_assoc, singleton_append]
    exact perm_middle
  constructor
  · apply List.Perm.trans _ (hopen.map LookupRequest.domain).symm
    exact (perm_append_singleton _ _).trans (hbooks.marks.cons request.domain)
  · have hlength : state.pendingDomains.length = state.openRequests.length := by
      simpa using hbooks.marks.length_eq
    rw [hopen.length_eq, length_cons]
    omega
  · intro call hcall
    rcases mem_append.mp hcall with hold | hnew
    · exact hbooks.phases call hold
    · rw [mem_singleton.mp hnew]
  · intro other hother
    rcases mem_cons.mp (hopen.mem_iff.mp hother) with rfl | hold
    · exact hrequest
    · exact hbooks.wellFormed other hold

theorem Bookkept.proceed {index : Nat} {call : Submission}
    (hcall : state.calls[index]? = some call) : Bookkept (state.proceed index call) := by
  obtain ⟨hindex, hget⟩ := List.getElem?_eq_some_iff.mp hcall
  have hperm : (call :: state.calls.eraseIdx index).Perm state.calls := by
    rw [← hget]
    exact getElem_cons_eraseIdx_perm hindex
  have hphase : call.phase = .marked := hbooks.phases call (mem_of_getElem? hcall)
  have hqueue : state.queue.length < kLookupQueueDepth := by
    have hroom := hbooks.room
    simp only [State.openRequests, length_append, length_map] at hroom
    unfold kLookupQueueDepth kMaxPendingDomains at *
    omega
  unfold State.proceed
  rw [hphase]
  simp only [hqueue, if_true]
  refine hbooks.of_perm rfl ?_ ?_
  · have hrequests := hperm.map Submission.request
    simp only [State.openRequests, append_assoc, singleton_append]
    refine List.Perm.trans ?_ (hrequests.append_right _)
    simp only [map_cons, cons_append]
    rw [← append_assoc]
    refine perm_middle.trans ?_
    rw [append_assoc]
  · intro other hother
    exact mem_of_mem_eraseIdx hother

theorem Bookkept.complete {request : LookupRequest} {found : List Bytes}
    (hworker : state.worker = .lookingUp request) :
    Bookkept { state with
      worker := .delivering request found
      pendingDomains := clearPending request.domain state.pendingDomains } := by
  have hopen : state.openRequests.Perm (request :: (state.calls.map Submission.request ++
      state.queue)) := by
    simp only [State.openRequests, hworker, Worker.request]
    rw [← append_assoc]
    exact perm_append_singleton _ _
  have hwellFormed := hbooks.wellFormed request (hopen.mem_iff.mpr mem_cons_self)
  have hrest : State.openRequests { state with
      worker := .delivering request found
      pendingDomains := clearPending request.domain state.pendingDomains } =
        state.calls.map Submission.request ++ state.queue := by
    simp [State.openRequests, Worker.request]
  constructor
  · have herase := (hbooks.marks.trans (hopen.map _)).erase request.domain
    rw [map_cons, erase_cons_head] at herase
    rw [hrest]
    rw [clearPending, hwellFormed.domain]
    exact herase
  · have hroom := hbooks.room
    rw [hopen.length_eq, length_cons] at hroom
    rw [hrest]
    omega
  · exact hbooks.phases
  · intro other hother
    rw [hrest] at hother
    exact hbooks.wellFormed other (hopen.mem_iff.mpr (mem_cons_of_mem request hother))

end

theorem token_ne_stop (slot : Fin kMaxPendingForwards) : UInt8.ofNat slot ≠ kQueueStopToken := by
  revert slot
  decide

theorem RoomyStep.bookkept (hstep : RoomyStep state action state') (hbooks : Bookkept state) :
    Bookkept state' := by
  obtain ⟨hstep, hroom⟩ := hstep
  cases action with
  | configure settings =>
    cases hstep
    exact hbooks.of_perm rfl (.refl _) fun _ h ↦ h
  | submit domain type slot =>
    cases hstep
    obtain hsame | ⟨request, hdomain, htoken, hfree, hsubmit⟩ :=
      submitLookup_spec domain type (UInt8.ofNat slot) hroom
    · rwa [hsame]
    · rw [hsubmit]
      exact hbooks.submit ⟨hdomain, htoken ▸ token_ne_stop slot⟩ hfree
  | proceed index =>
    obtain ⟨call, hcall, rfl⟩ := Option.map_eq_some_iff.mp hstep
    exact hbooks.proceed hcall
  | receive =>
    simp only [Step, State.step] at hstep
    split at hstep
    · rename_i request queue hworker hqueue
      have hmem : request ∈ state.openRequests := by simp [State.openRequests, hqueue]
      rw [if_neg (hbooks.wellFormed request hmem).token, Option.some.injEq] at hstep
      subst hstep
      refine hbooks.of_perm rfl ?_ ?_
      · simp only [State.openRequests, hworker, hqueue, Worker.request, append_nil]
        exact (perm_append_singleton request queue).append_left _
      · exact fun _ h ↦ h
    · simp at hstep
  | complete answers =>
    simp only [Step, State.step] at hstep
    split at hstep
    · rename_i request hworker
      cases hstep
      exact hbooks.complete hworker
    · simp at hstep
  | deliver arrives =>
    simp only [Step, State.step] at hstep
    split at hstep
    · rename_i request found hworker
      cases hstep
      refine hbooks.of_perm rfl ?_ ?_
      · simp [State.openRequests, hworker, Worker.request]
      · exact fun _ h ↦ h
    · simp at hstep
  | drain =>
    simp only [Step, State.step] at hstep
    split at hstep
    · cases hstep
      exact hbooks.of_perm rfl (.refl _) fun _ h ↦ h
    · simp at hstep

theorem bookkept_of_run {settings : Settings} {actions : List Action}
    (hrun : Run RoomyStep (.start settings) actions state) : Bookkept state := by
  have hstart : Bookkept (.start settings) :=
    ⟨.refl _, Nat.zero_le _, fun _ h ↦ absurd h not_mem_nil, fun _ h ↦ absurd h not_mem_nil⟩
  exact hrun.preserves (fun _ _ _ hbooks hstep ↦ hstep.bookkept hbooks) hstart

/-- **Pending lookups.** In a run whose submissions all find room in the table, a domain is marked
exactly while a request for it is on its way, and one without such a request is not refused. -/
theorem marksExact_of_run {settings : Settings} {actions : List Action}
    (hrun : Run RoomyStep (.start settings) actions state) :
    MarksExact state ∧ ∀ domain, (∀ request ∈ state.openRequests, request.domain ≠ cString domain) →
        markPending domain state.pendingDomains ≠ none := by
  have hexact : MarksExact state := (bookkept_of_run hrun).marksExact
  refine ⟨hexact, fun domain hnone hrefused ↦ ?_⟩
  have hunmarked : cString domain ∉ state.pendingDomains := by
    intro hmarked
    obtain ⟨request, hopen, hdomain⟩ := (hexact _).mp hmarked
    exact hnone request hopen hdomain
  unfold markPending at hrefused
  rw [if_neg hunmarked] at hrefused
  split_ifs at hrefused

/-- Seventeen names in a row before the worker runs, then the worker takes them all. The
seventeenth finds the table and the queue full and pushes the first one out. -/
def overload : List Action :=
  (List.finRange 17).flatMap
      (fun i : Fin 17 ↦ [.submit (letter i) kTypeA (i.castLE (by decide)), .proceed 0]) ++
    [.proceed 0, .proceed 0] ++
    (List.range 16).flatMap fun _ ↦ [.receive, .complete [], .deliver true, .drain]

/-- Nothing is on its way any more, but the first name is still marked, and refused. -/
theorem marksExact_fails :
    ∃ actions last, Run Step (.start onSettings) actions last ∧ last.openRequests = [] ∧
      ¬ MarksExact last ∧ markPending (letter 0) last.pendingDomains = none := by
  have hsteps : steps State.step (State.start onSettings) overload =
      some ⟨onSettings, [letter 0], [], [], .idle, []⟩ := by
    decide +kernel
  refine ⟨overload, _, run_of_steps hsteps, rfl, fun hexact ↦ ?_, by decide⟩
  obtain ⟨request, hopen, -⟩ := (hexact (letter 0)).mp mem_cons_self
  exact absurd hopen not_mem_nil

/-- One name, submitted and queued: its mark and its request are there together. -/
theorem marksExact_of_run_single : ∃ last, Run RoomyStep (.start onSettings)
        [.submit (letter 0) kTypeA ⟨0, by decide⟩, .proceed 0] last ∧
      last.pendingDomains = [letter 0] ∧ MarksExact last := by
  have hrun : Run RoomyStep (.start onSettings)
      [.submit (letter 0) kTypeA ⟨0, by decide⟩, .proceed 0]
      ⟨onSettings, [letter 0], [], [⟨0, kTypeA, letter 0⟩], .idle, []⟩ :=
    .cons ⟨rfl, by decide⟩ (.cons ⟨rfl, trivial⟩ (.nil _))
  exact ⟨_, hrun, rfl, (marksExact_of_run hrun).1⟩

end DhcpServer.Dns.ExternalCache
