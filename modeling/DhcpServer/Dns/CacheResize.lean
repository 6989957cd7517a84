import DhcpServer.Dns.CacheRoundTrip

/-!
# The cache switched off under a running call

The public functions of `InternalDnsCache` with their unlocked test of `arena_` and their section
under the lock as two steps, and a save as a list of indices that it re-reads one section at a time.
`Touches` says what a section may index: a bucket, or a node that a walk from a bucket or from the
free stack can come to. All of it has to lie in the arena that exists at that moment.
-/

namespace DhcpServer.Dns.CacheResize

open Library List Option
open InternalCache (Arena Cache Inet Operation Payload WellFormed Storable Unsearched nowMs sampleInet)

inductive Access
  /-- `hash % numBuckets_`. -/
  | modulo
  | bucket (index : Nat)
  | node (index : Nat)

def Access.Within : Access → Option Arena → Prop
  | modulo, some arena => 0 < arena.numBuckets
  | bucket index, some arena => index < arena.numBuckets
  | node index, some arena => index < arena.nodeCount
  | _, none => False

inductive Reach (arena : Arena) : Nat → Prop
  | bucket {bucket index : Nat} :
      bucket < arena.numBuckets → arena.buckets bucket = some index → Reach arena index
  | free {index : Nat} : arena.freeHead = some index → Reach arena index
  | next {index after : Nat} : Reach arena index → arena.link index = some after → Reach arena after

structure StoreCall where
  domain : Bytes
  qtype : UInt16
  payload : Payload
  time : Nat
  scanUs : Nat

def StoreCall.operation (call : StoreCall) : Operation :=
  .store call.domain call.qtype call.payload call.time call.scanUs

inductive Request
  /-- Past the unlocked test, before the section. -/
  | store (call : StoreCall)
  | lookup (domain : Bytes) (qtype : UInt16) (time waitUs : Nat)
  | contains (domain : Bytes) (qtype : UInt16)
  | erase (domain : Bytes) (qtype : UInt16)
  | entries
  | oldestEntries
  | clear
  /-- `saveToFile` before its first pass. -/
  | snapshot (time : Nat)
  /-- `saveToFile` with the indices it has still to re-read. -/
  | reread (left : List Nat)
  /-- `loadFromFile` with the records it has still to store. -/
  | load (left : List StoreCall)
  /-- `loadFromFile` past the test of `storeInternal`. -/
  | loadStore (call : StoreCall) (left : List StoreCall)

namespace Request

/-- The section computes the bucket of a name without a look at `arena_`. -/
def Hashes : Request → Prop
  | store call | loadStore call _ => Storable call.domain call.qtype call.payload.ips
  | lookup domain _ _ _ => ¬Unsearched domain
  | contains domain _ => domain ≠ []
  | _ => False

/-- The section walks the chains or the free stack, where there is an arena. -/
def Walks : Request → Prop
  | reread _ | load _ => False
  | _ => True

def Touches (request : Request) (arena : Option Arena) : Access → Prop
  | .modulo => request.Hashes ∨ ∃ domain qtype, request = erase domain qtype ∧ arena.isSome
  | .bucket bucket => request.Walks ∧ ∃ present ∈ arena, bucket < present.numBuckets
  | .node index =>
    (request.Walks ∧ ∃ present ∈ arena, Reach present index) ∨ ∃ left, request = reread (index :: left)

def operation? : Request → Option Operation
  | store call | loadStore call _ => some call.operation
  | lookup domain qtype time waitUs => some (.lookup domain qtype time waitUs)
  | erase domain qtype => some (.erase domain qtype)
  | clear => some .clear
  | _ => none

def rest (ignoreTtl : Bool) (request : Request) (arena : Option Arena) : Option (Option Request) :=
  match request with
  | snapshot time =>
    match arena with
    | none => some none
    | some present =>
      (CacheFile.snapshot ignoreTtl (nowMs time) present).map fun kept ↦
        if kept.isEmpty then none else some (reread kept)
  | reread (_ :: left) => some (some (reread left))
  | load (call :: left) => some (some (if arena.isSome then loadStore call left else load left))
  | loadStore _ left => some (some (load left))
  | _ => some none

/-- The indices the call has kept from an earlier section. -/
def indices : Request → List Nat
  | reread left => left
  | _ => []

def initial : Request → Bool
  | reread _ | loadStore _ _ => false
  | _ => true

/-- `clear` alone has no test before the lock. -/
def tests : Request → Bool
  | clear => false
  | _ => true

/-- The call is between its unlocked test and a section that does not repeat it, or it holds indices
of an earlier section. -/
def exposed : Request → Bool
  | store _ | lookup _ _ _ _ | contains _ _ | loadStore _ _ | reread (_ :: _) => true
  | _ => false

end Request

structure State where
  cache : Cache
  requests : List Request

inductive Event
  | enable (sizeMb : Nat) (allocated : Bool)
  | disable
  /-- A call begins, with its unlocked test of `arena_`. -/
  | test (request : Request)
  /-- The next section of a call. -/
  | act (request : Nat)
  /-- A save gives up after a write that failed. -/
  | giveUp (request : Nat)

/-- The arena after a section. Without one nothing happens to it. -/
def arenaAfter (inet : Inet) (ignoreTtl : Bool) (request : Request) : Option Arena → Option (Option Arena)
  | none => some none
  | some arena =>
    match request.operation? with
    | none => some (some arena)
    | some operation => (arena.step inet ignoreTtl operation).map some

def step (inet : Inet) (state : State) : Event → Option State
  | .enable sizeMb allocated => some { state with cache := state.cache.enable sizeMb allocated }
  | .disable => some { state with cache := state.cache.disable }
  | .test request =>
    if !request.initial then none
    else if request.tests && state.cache.arena.isNone then some state
    else some { state with requests := state.requests ++ [request] }
  | .act index => do
    let request ← state.requests[index]?
    let rest ← request.rest state.cache.ignoreTtl state.cache.arena
    let arena ← arenaAfter inet state.cache.ignoreTtl request state.cache.arena
    return {
      cache := { state.cache with arena }
      requests :=
        match rest with
        | none => state.requests.eraseIdx index
        | some request => state.requests.set index request }
  | .giveUp index => some { state with requests := state.requests.eraseIdx index }

def Step (inet : Inet) (state : State) (event : Event) (state' : State) : Prop :=
  step inet state event = some state'

def start (ignoreTtl : Bool) : State := ⟨Cache.initial ignoreTtl, []⟩

/-- The claim on one step: what the section may index exists. The loops of `enable` run up to the
sizes it has just set, and the other steps index nothing. -/
def Safe (state : State) : Event → Prop
  | .act index => ∀ request ∈ state.requests[index]?,
      ∀ access, request.Touches state.cache.arena access → access.Within state.cache.arena
  | .enable _ _ | .disable | .test _ | .giveUp _ => True

/-- The cache is switched off only while no call relies on its being on. -/
def Careful (state : State) : Event → Prop
  | .disable => ∀ request ∈ state.requests, request.exposed = false
  | .enable _ _ | .test _ | .act _ | .giveUp _ => True

def CarefulStep (inet : Inet) (state : State) (event : Event) (state' : State) : Prop :=
  Careful state event ∧ Step inet state event state'

theorem mem_of_chain {link : Nat → Option Nat} {head : Option Nat} {members : List Nat}
    (hchain : Chain link head members) {index after : Nat} (hmem : index ∈ members)
    (hnext : link index = some after) : after ∈ members := by
  obtain ⟨before, behind, rfl⟩ := append_of_mem hmem
  cases hchain.suffix with
  | cons hrest =>
    rw [hnext] at hrest
    cases hrest
    simp

theorem lt_nodeCount {arena : Arena} {chains : Nat → List Nat} {free : List Nat}
    (hlayout : InternalCache.Layout arena chains free []) {index : Nat}
    (hmem : index ∈ free ++ allMembers arena.numBuckets chains) :
    index < arena.nodeCount :=
  mem_range.mp (hlayout.pool.subset hmem)

theorem lt_of_chained {arena : Arena} (hwell : WellFormed arena) {index : Nat}
    (hchained : arena.Chained index) : index < arena.nodeCount := by
  obtain ⟨chains, free, hlayout⟩ := hwell
  exact lt_nodeCount hlayout (mem_append_right free (hlayout.chained_iff.mp hchained))

theorem lt_of_reach {arena : Arena} (hwell : WellFormed arena) {index : Nat}
    (hreach : Reach arena index) : index < arena.nodeCount := by
  obtain ⟨chains, free, hlayout⟩ := hwell
  have hplace : (∃ bucket < arena.numBuckets, index ∈ chains bucket) ∨ index ∈ free := by
    induction hreach with
    | @bucket bucket index hbucket hhead =>
      have hchain := hlayout.chain bucket hbucket
      rw [hhead] at hchain
      have hfirst := hchain.head_eq
      exact .inl ⟨bucket, hbucket, mem_of_mem_head? hfirst.symm⟩
    | free hhead =>
      have hchain := hlayout.freeChain
      rw [hhead] at hchain
      exact .inr (mem_of_mem_head? hchain.head_eq.symm)
    | next _ hnext ih =>
      rcases ih with ⟨bucket, hbucket, hmem⟩ | hmem
      · exact .inl ⟨bucket, hbucket, mem_of_chain (hlayout.chain bucket hbucket) hmem hnext⟩
      · exact .inr (mem_of_chain hlayout.freeChain hmem hnext)
  apply lt_nodeCount hlayout
  rw [mem_append, mem_allMembers]
  exact hplace.symm

variable {request : Request}

theorem Request.exposed_of_hashes (hhashes : request.Hashes) : request.exposed := by
  cases request <;> first | rfl | exact hhashes.elim

/-- The nodes that the call is to re-read are in the pool. -/
def Request.Held (request : Request) (arena : Option Arena) : Prop :=
  ∃ nodeCount ∈ arena.map Arena.nodeCount, ∀ index ∈ request.indices, index < nodeCount

theorem Request.Held.isSome {arena : Option Arena}
    (hheld : request.Held arena) : ∃ present, arena = some present := by
  obtain ⟨nodeCount, hcount, -⟩ := hheld
  obtain ⟨present, hpresent, -⟩ := map_eq_some_iff.mp hcount
  exact ⟨present, hpresent⟩

structure State.Sound (state : State) : Prop where
  wellFormed : ∀ arena ∈ state.cache.arena, WellFormed arena
  held : ∀ request ∈ state.requests, request.exposed = true → request.Held state.cache.arena

theorem arenaAfter_spec {inet : Inet} {ignoreTtl : Bool}
    {arena after : Option Arena} (hwell : ∀ present ∈ arena, WellFormed present)
    (hafter : arenaAfter inet ignoreTtl request arena = some after) :
    (∀ present ∈ after, WellFormed present) ∧ after.map Arena.nodeCount = arena.map Arena.nodeCount := by
  cases arena with
  | none =>
    cases hafter
    exact ⟨hwell, rfl⟩
  | some arena =>
    have hwell := hwell arena rfl
    rw [arenaAfter] at hafter
    split at hafter
    case h_1 =>
      cases hafter
      exact ⟨by simpa using hwell, rfl⟩
    case h_2 operation _ =>
      obtain ⟨changed, hchanged, rfl⟩ := map_eq_some_iff.mp hafter
      have heffect := hwell.effect hchanged
      refine ⟨?_, congrArg some heffect.nodeCount⟩
      rintro _ ⟨rfl⟩
      exact heffect.wellFormed hwell

theorem Request.rest_held {ignoreTtl : Bool} {request next : Request} {arena : Option Arena}
    (hwell : ∀ present ∈ arena, WellFormed present)
    (hheld : request.exposed → request.Held arena)
    (hrest : request.rest ignoreTtl arena = some (some next)) (hexposed : next.exposed) :
    next.Held arena := by
  cases request with
  | snapshot time =>
    cases arena with
    | none => cases hrest
    | some arena =>
      have hwell := hwell arena rfl
      obtain ⟨kept, hsnapshot, -, hkept, -⟩ := CacheFile.snapshot_spec hwell ignoreTtl (nowMs time)
      simp only [Request.rest, hsnapshot, map_some, Option.some.injEq] at hrest
      split_ifs at hrest
      cases hrest
      refine ⟨arena.nodeCount, rfl, fun index hindex ↦ ?_⟩
      exact lt_of_chained hwell ((hkept index).mp hindex).1
  | reread left =>
    cases left with
    | nil => cases hrest
    | cons index left =>
      cases hrest
      obtain ⟨nodeCount, hcount, hleft⟩ := hheld rfl
      exact ⟨nodeCount, hcount, fun later hlater ↦ hleft later (mem_cons_of_mem index hlater)⟩
  | load left =>
    cases left with
    | nil => cases hrest
    | cons call left =>
      cases arena with
      | none =>
        cases hrest
        cases hexposed
      | some arena =>
        cases hrest
        exact ⟨arena.nodeCount, rfl, by simp [Request.indices]⟩
  | loadStore call left =>
    cases hrest
    cases hexposed
  | _ => cases hrest

theorem enable_spec (cache : Cache) (sizeMb : Nat) (allocated : Bool)
    (hwell : ∀ arena ∈ cache.arena, WellFormed arena) :
    (∀ arena ∈ (cache.enable sizeMb allocated).arena, WellFormed arena) ∧
      (cache.arena.isSome → (cache.enable sizeMb allocated).arena = cache.arena) := by
  refine ⟨?_, fun hsome ↦ by simp [Cache.enable, hsome]⟩
  rcases cache.enable_arena sizeMb allocated with hsame | ⟨fresh, hfresh, hvacant, -⟩
  · rwa [hsame]
  · rw [hfresh]
    rintro _ ⟨rfl⟩
    exact hvacant.wellFormed

theorem State.Sound.step {inet : Inet} {state state' : State} {event : Event}
    (hsound : state.Sound) (hstep : CarefulStep inet state event state') : state'.Sound := by
  obtain ⟨hcareful, hstep⟩ := hstep
  rw [Step] at hstep
  cases event with
  | enable sizeMb allocated =>
    cases hstep
    obtain ⟨hwell, hsame⟩ := enable_spec state.cache sizeMb allocated hsound.wellFormed
    refine ⟨hwell, fun request hrequest hexposed ↦ ?_⟩
    have hheld := hsound.held request hrequest hexposed
    obtain ⟨present, hpresent⟩ := hheld.isSome
    rwa [hsame (by simp [hpresent])]
  | disable =>
    cases hstep
    refine ⟨by rintro arena ⟨⟩, fun request hrequest hexposed ↦ ?_⟩
    rw [hcareful request hrequest] at hexposed
    cases hexposed
  | test request =>
    rw [CacheResize.step] at hstep
    split_ifs at hstep with hinitial hoff
    · cases hstep
      exact hsound
    · cases hstep
      refine ⟨hsound.wellFormed, fun same hsame hexposed ↦ ?_⟩
      rcases mem_append.mp hsame with hold | hnew
      · exact hsound.held same hold hexposed
      · obtain rfl := mem_singleton.mp hnew
        cases harena : state.cache.arena with
        | none =>
          rw [harena] at hoff
          cases same <;> simp_all [Request.exposed, Request.tests]
        | some arena =>
          refine ⟨arena.nodeCount, rfl, ?_⟩
          cases same <;> simp_all [Request.indices, Request.initial]
  | act index =>
    simp only [CacheResize.step, bind_eq_bind, bind_eq_some_iff, Option.pure_def] at hstep
    obtain ⟨request, hrequest, rest, hrest, after, hafter, hstate⟩ := hstep
    cases hstate
    have hmem := mem_of_getElem? hrequest
    obtain ⟨hwell, hcount⟩ := arenaAfter_spec hsound.wellFormed hafter
    refine ⟨hwell, fun same hsame hexposed ↦ ?_⟩
    rw [Request.Held, hcount]
    cases rest with
    | none => exact hsound.held same (mem_of_mem_eraseIdx hsame) hexposed
    | some next =>
      rcases mem_or_eq_of_mem_set hsame with hold | rfl
      · exact hsound.held same hold hexposed
      · exact Request.rest_held hsound.wellFormed (hsound.held request hmem) hrest hexposed
  | giveUp index =>
    cases hstep
    refine ⟨hsound.wellFormed, fun request hrequest ↦ ?_⟩
    exact hsound.held request (mem_of_mem_eraseIdx hrequest)

theorem State.Sound.safe {state : State} (hsound : state.Sound) (event : Event) : Safe state event := by
  cases event with
  | act index =>
    intro request hrequest access htouches
    have hheld := hsound.held request (mem_of_getElem? hrequest)
    cases access with
    | modulo =>
      have hpresent : ∃ present, state.cache.arena = some present := by
        rcases htouches with hhashes | ⟨domain, qtype, -, hsome⟩
        · exact (hheld (Request.exposed_of_hashes hhashes)).isSome
        · exact isSome_iff_exists.mp hsome
      obtain ⟨present, hpresent⟩ := hpresent
      obtain ⟨chains, free, hlayout⟩ := hsound.wellFormed present hpresent
      rw [hpresent]
      exact hlayout.numBuckets_pos
    | bucket bucket =>
      obtain ⟨-, present, hpresent, hbucket⟩ := htouches
      rwa [mem_def.mp hpresent]
    | node index =>
      rcases htouches with ⟨-, present, hpresent, hreach⟩ | ⟨left, rfl⟩
      · rw [mem_def.mp hpresent]
        exact lt_of_reach (hsound.wellFormed present hpresent) hreach
      · obtain ⟨nodeCount, hcount, hleft⟩ := hheld rfl
        obtain ⟨present, hpresent, rfl⟩ := map_eq_some_iff.mp hcount
        rw [hpresent]
        exact hleft index mem_cons_self
  | _ => trivial

/-- Where nothing that relies on the cache is under way when it is switched off, no section indexes
what is not there, whatever else is interleaved. -/
theorem safe_of_run {inet : Inet} {ignoreTtl : Bool} {events : List Event} {last : State}
    (hrun : Run (CarefulStep inet) (start ignoreTtl) events last) (event : Event) :
    Safe last event := by
  have hstart : (start ignoreTtl).Sound := by
    refine ⟨?_, by simp [start]⟩
    rintro arena ⟨⟩
  exact (hrun.preserves (fun _ _ _ hsound hstep ↦ hsound.step hstep) hstart).safe event

/-- A lookup is past its test of a cache of 1 MB. -/
theorem safe_of_run_lookup : ∃ last, Run (CarefulStep sampleInet) (start false)
        [.enable 1 true, .test (.lookup [0x61] 1 0 0)] last ∧ Safe last (.act 0) := by
  have hrun : ∃ last, Run (CarefulStep sampleInet) (start false)
      [.enable 1 true, .test (.lookup [0x61] 1 0 0)] last :=
    ⟨_, .cons ⟨trivial, rfl⟩ (.cons ⟨trivial, rfl⟩ (.nil _))⟩
  obtain ⟨last, hlast⟩ := hrun
  exact ⟨last, hlast, safe_of_run hlast (.act 0)⟩

/-- The cache is switched off between the test of a lookup and its section: the section reduces the
hash modulo no buckets. -/
theorem safe_fails_lookup : ∃ last, Run (Step sampleInet) (start false)
        [.enable 1 true, .test (.lookup [0x61] 1 0 0), .disable] last ∧ ¬Safe last (.act 0) := by
  refine ⟨_, .cons rfl (.cons rfl (.cons rfl (.nil _))), fun hsafe ↦ ?_⟩
  have hhashes : (Request.lookup [0x61] 1 0 0).Hashes := by
    change ¬(_ ∨ _)
    decide
  exact hsafe (.lookup [0x61] 1 0 0) rfl .modulo (.inl hhashes)

end DhcpServer.Dns.CacheResize
