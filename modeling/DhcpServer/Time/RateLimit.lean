import DhcpServer.Library.FixedWindow
import Mathlib.Data.List.Dedup
import Mathlib.Data.List.Perm.Subperm

/-!
# The rate limit of the time server

`TimeServer::rateLimited`: a small table of clients, each with the start of its current window and the
replies sent in it. A client's answers are those of a limiter of its own as long as the table has a slot
for every client. The windows are fixed ones, so the limit holds in every interval exactly when no window
of a client is followed too closely by its next one.
-/

namespace DhcpServer.Time.RateLimit

open Library FixedWindow List Option

def kRateSlots : Nat := 8

structure RateSlot where
  ip : UInt32 := 0
  windowStartMs : UInt64 := 0
  count : UInt32 := 0

def initialSlots : List RateSlot := List.replicate kRateSlots {}

def countCall (rateLimitPerSec : UInt32) (nowMs : UInt64) (slot : RateSlot) : Bool × RateSlot :=
  let slot :=
    if 1000 ≤ nowMs - slot.windowStartMs then { slot with windowStartMs := nowMs, count := 0 } else slot
  if rateLimitPerSec ≤ slot.count then (true, slot) else (false, { slot with count := slot.count + 1 })

/-- The loop over the slots up to the client's or a free one. -/
def slotLoop (rateLimitPerSec clientIp : UInt32) (nowMs : UInt64) :
    List RateSlot → Option (Bool × List RateSlot)
  | [] => none
  | slot :: slots =>
    if slot.ip = clientIp then
      let answer := countCall rateLimitPerSec nowMs slot
      some (answer.1, answer.2 :: slots)
    else if slot.ip = 0 then some (false, { ip := clientIp, windowStartMs := nowMs, count := 1 } :: slots)
    else (slotLoop rateLimitPerSec clientIp nowMs slots).map fun (limited, rest) ↦ (limited, slot :: rest)

def oldestSlot (slots : List RateSlot) : Nat :=
  (List.range slots.length).foldl
    (fun oldest i ↦
      if (slots.getD i {}).windowStartMs < (slots.getD oldest {}).windowStartMs then i else oldest) 0

def rateLimited (rateLimitPerSec : UInt32) (slots : List RateSlot) (clientIp : UInt32) (nowMs : UInt64) :
    Bool × List RateSlot :=
  if rateLimitPerSec = 0 then (false, slots)
  else
    match slotLoop rateLimitPerSec clientIp nowMs slots with
    | some answer => answer
    -- the table is full
    | none => (false, slots.set (oldestSlot slots) { ip := clientIp, windowStartMs := nowMs, count := 1 })

structure Call where
  clientIp : UInt32
  nowMs : UInt64

def answerCalls (rateLimitPerSec : UInt32) : List RateSlot → List Call → List (Call × Bool)
  | _, [] => []
  | slots, call :: calls =>
    let answer := rateLimited rateLimitPerSec slots call.clientIp call.nowMs
    (call, answer.1) :: answerCalls rateLimitPerSec answer.2 calls

def timesOf (client : UInt32) (calls : List Call) : List Nat :=
  (calls.filter (·.clientIp = client)).map (·.nowMs.toNat)

def answersTo (client : UInt32) (answers : List (Call × Bool)) : List (Nat × Bool) :=
  (answers.filter (·.1.clientIp = client)).map fun answer ↦ (answer.1.nowMs.toNat, answer.2)

def repliesTo (client : UInt32) (answers : List (Call × Bool)) : List Nat :=
  ((answersTo client answers).filter fun answer ↦ !answer.2).map (·.1)

/-- The calls come in the order of their times, from few enough clients. -/
structure Orderly (calls : List Call) : Prop where
  ordered : calls.Pairwise fun earlier later ↦ earlier.nowMs ≤ later.nowMs
  nonzero : ∀ call ∈ calls, call.clientIp ≠ 0
  few : (calls.map (·.clientIp)).dedup.length ≤ kRateSlots

structure KeepsPromise (rateLimitPerSec : UInt32) (calls : List Call) : Prop where
  /-- No client gets more replies than the limit in an interval of 1000 ms. -/
  bounded : ∀ client start,
    ((repliesTo client (answerCalls rateLimitPerSec initialSlots calls)).filter fun time ↦
      start ≤ time ∧ time < start + 1000).length ≤ rateLimitPerSec.toNat
  /-- A client that makes no more calls than the limit in any interval of 1000 ms is not limited. -/
  spared : ∀ client, (∀ start, ((timesOf client calls).filter fun time ↦
      start ≤ time ∧ time < start + 1000).length ≤ rateLimitPerSec.toNat) →
    ∀ answer ∈ answersTo client (answerCalls rateLimitPerSec initialSlots calls), answer.2 = false
  /-- What is answered to a client is the same whatever calls the others make. -/
  independent : ∀ client others, Orderly others → timesOf client others = timesOf client calls →
    answersTo client (answerCalls rateLimitPerSec initialSlots others) =
      answersTo client (answerCalls rateLimitPerSec initialSlots calls)

/-- In no client's calls is a window followed too closely by the next one: of the first calls of a window
and the first ones of the next, no more of each than the limit, every call is 1000 ms younger than the one
so many places before it. -/
def WellSpaced (rateLimitPerSec : UInt32) (calls : List Call) : Prop :=
  ∀ client, (windows 1000 (timesOf client calls)).IsChain (Smooth rateLimitPerSec.toNat 1000)

variable {rate client other : UInt32} {now last : UInt64} {slot : RateSlot} {slots slots' : List RateSlot}
  {limited : Bool} {clients : List UInt32} {calls : List Call}

def RateSlot.window (slot : RateSlot) : Window := ⟨slot.windowStartMs.toNat, slot.count.toNat⟩

def windowOf (client : UInt32) : List RateSlot → Option Window
  | [] => none
  | slot :: slots => if slot.ip = client then some slot.window else windowOf client slots

/-- Clients have one slot each, and the free slots come last. -/
def Packed (slots : List RateSlot) : Prop :=
  slots.Pairwise fun former later ↦ former.ip = 0 ∧ later.ip = 0 ∨ former.ip ≠ 0 ∧ former.ip ≠ later.ip

/-- What a call does to the table when there is a slot for its client. -/
structure Served (rate client : UInt32) (now : UInt64) (slots : List RateSlot) (limited : Bool)
    (slots' : List RateSlot) : Prop where
  packed : Packed slots'
  length : slots'.length = slots.length
  /-- A slot is an old one or holds the client. -/
  origin : ∀ slot ∈ slots', slot.ip = client ∧ slot.windowStartMs = now ∨
    ∃ before ∈ slots, before.ip = slot.ip ∧ before.windowStartMs = slot.windowStartMs
  /-- The client's window is the one that a limiter of its own would have. -/
  window : windowOf client slots' = some (request rate.toNat 1000 (windowOf client slots) now.toNat).1
  verdict : limited = !(request rate.toNat 1000 (windowOf client slots) now.toNat).2
  others : ∀ other ≠ client, other ≠ 0 → windowOf other slots' = windowOf other slots

theorem windowOf_eq_none (hnone : ∀ slot ∈ slots, slot.ip ≠ client) : windowOf client slots = none := by
  induction slots with
  | nil => rfl
  | cons slot slots ih =>
    obtain ⟨hslot, hslots⟩ := forall_mem_cons.mp hnone
    rw [windowOf, if_neg hslot, ih hslots]

theorem countCall_eq (hrate : rate ≠ 0) (hpast : slot.windowStartMs ≤ now) :
    (countCall rate now slot).1 = !(request rate.toNat 1000 (some slot.window) now.toNat).2 ∧
      (countCall rate now slot).2.window = (request rate.toNat 1000 (some slot.window) now.toNat).1 := by
  have hpositive : 0 < rate.toNat := Nat.pos_of_ne_zero fun hzero ↦ hrate (UInt32.toNat_inj.mp hzero)
  have hnext {count : UInt32} (hroom : ¬rate ≤ count) : (count + 1).toNat = count.toNat + 1 := by
    have hlimit := rate.toNat_lt
    rw [UInt32.le_iff_toNat_le] at hroom
    rw [UInt32.toNat_add, UInt32.toNat_one]
    omega
  have hrestart : 1000 ≤ now - slot.windowStartMs ↔ slot.windowStartMs.toNat + 1000 ≤ now.toNat := by
    have hle := UInt64.le_iff_toNat_le.mp hpast
    rw [UInt64.le_iff_toNat_le, UInt64.toNat_sub_of_le _ _ hpast]
    change 1000 ≤ _ ↔ _
    omega
  rw [countCall]
  by_cases hlater : slot.windowStartMs.toNat + 1000 ≤ now.toNat
  · have hnone : ¬rate ≤ 0 := by
      rw [UInt32.le_iff_toNat_le, UInt32.toNat_zero]
      omega
    rw [if_pos (hrestart.mpr hlater), request_of_le hpositive hlater]
    rw [if_neg hnone]
    exact ⟨rfl, rfl⟩
  · rw [if_neg (mt hrestart.mp hlater), request_of_lt (not_le.mp hlater)]
    have hsame : rate ≤ slot.count ↔ rate.toNat ≤ slot.window.count := UInt32.le_iff_toNat_le
    by_cases hfull : rate ≤ slot.count
    · rw [if_pos hfull, if_pos (hsame.mp hfull)]
      exact ⟨rfl, rfl⟩
    · rw [if_neg hfull, if_neg (mt hsame.mpr hfull)]
      exact ⟨rfl, congrArg (Window.mk _) (hnext hfull)⟩

theorem countCall_ip (rate : UInt32) (now : UInt64) (slot : RateSlot) :
    (countCall rate now slot).2.ip = slot.ip := by
  simp only [countCall]
  split_ifs <;> rfl

theorem countCall_start (rate : UInt32) (now : UInt64) (slot : RateSlot) :
    (countCall rate now slot).2.windowStartMs = now ∨
      (countCall rate now slot).2.windowStartMs = slot.windowStartMs := by
  simp only [countCall]
  split_ifs
  · exact .inl rfl
  · exact .inl rfl
  · exact .inr rfl
  · exact .inr rfl

theorem served_own (hrate : rate ≠ 0) (hpast : slot.windowStartMs ≤ now) (hclient : slot.ip = client)
    (hpacked : Packed (slot :: slots)) :
    Served rate client now (slot :: slots) (countCall rate now slot).1
      ((countCall rate now slot).2 :: slots) := by
  obtain ⟨hverdict, hwindow⟩ := countCall_eq hrate hpast
  have hip := countCall_ip rate now slot
  refine ⟨?_, rfl, ?_, ?_, ?_, ?_⟩
  · refine pairwise_cons.mpr ⟨fun later hlater ↦ ?_, hpacked.of_cons⟩
    rw [hip]
    exact rel_of_pairwise_cons hpacked hlater
  · rw [forall_mem_cons]
    refine ⟨?_, fun later hlater ↦ .inr ⟨later, mem_cons_of_mem slot hlater, rfl, rfl⟩⟩
    rcases countCall_start rate now slot with hnow | hsame
    · exact .inl ⟨hip.trans hclient, hnow⟩
    · exact .inr ⟨slot, mem_cons_self, hip.symm, hsame.symm⟩
  · rw [windowOf, if_pos (hip.trans hclient), windowOf, if_pos hclient, hwindow]
  · rw [windowOf, if_pos hclient, hverdict]
  · intro other hother _
    have hno : slot.ip ≠ other := by rwa [hclient, ne_comm]
    rw [windowOf, if_neg (hip ▸ hno), windowOf, if_neg hno]

theorem served_free (hclient : client ≠ 0) (hfree : slot.ip = 0) (hpacked : Packed (slot :: slots)) :
    Served rate client now (slot :: slots) false
      ({ ip := client, windowStartMs := now, count := 1 } :: slots) := by
  obtain ⟨hbehind, hpacked⟩ := pairwise_cons.mp hpacked
  have hfrees : ∀ later ∈ slots, later.ip = 0 := by
    intro later hlater
    rcases hbehind later hlater with ⟨-, hzero⟩ | ⟨hnonzero, -⟩
    · exact hzero
    · exact absurd hfree hnonzero
  have hnone : windowOf client (slot :: slots) = none := by
    refine windowOf_eq_none (forall_mem_cons.mpr ⟨?_, fun later hlater ↦ ?_⟩)
    · rw [hfree]
      exact hclient.symm
    · rw [hfrees later hlater]
      exact hclient.symm
  refine ⟨?_, rfl, ?_, ?_, ?_, ?_⟩
  · refine pairwise_cons.mpr ⟨fun later hlater ↦ .inr ⟨hclient, ?_⟩, hpacked⟩
    rwa [hfrees later hlater]
  · rw [forall_mem_cons]
    exact ⟨.inl ⟨rfl, rfl⟩, fun later hlater ↦ .inr ⟨later, mem_cons_of_mem slot hlater, rfl, rfl⟩⟩
  · rw [hnone, windowOf, if_pos rfl]
    rfl
  · rw [hnone]
    rfl
  · intro other hother hnonzero
    rw [windowOf, if_neg hother.symm, windowOf, if_neg (hfree ▸ hnonzero.symm)]

theorem served_of_slotLoop (hrate : rate ≠ 0) (hclient : client ≠ 0) (hpacked : Packed slots)
    (hpast : ∀ slot ∈ slots, slot.windowStartMs ≤ now)
    (hloop : slotLoop rate client now slots = some (limited, slots')) :
    Served rate client now slots limited slots' := by
  induction slots generalizing slots' with
  | nil => cases hloop
  | cons slot slots ih =>
    obtain ⟨hslot, hslots⟩ := forall_mem_cons.mp hpast
    rw [slotLoop] at hloop
    by_cases hown : slot.ip = client
    · rw [if_pos hown] at hloop
      cases hloop
      exact served_own hrate hslot hown hpacked
    · rw [if_neg hown] at hloop
      by_cases hfree : slot.ip = 0
      · rw [if_pos hfree] at hloop
        cases hloop
        exact served_free hclient hfree hpacked
      · rw [if_neg hfree] at hloop
        obtain ⟨⟨limited, rest⟩, hrest, hsame⟩ := map_eq_some_iff.mp hloop
        cases hsame
        have hserved := ih hpacked.of_cons hslots hrest
        refine ⟨?_, ?_, ?_, ?_, ?_, ?_⟩
        · refine pairwise_cons.mpr ⟨fun later hlater ↦ .inr ⟨hfree, ?_⟩, hserved.packed⟩
          rcases hserved.origin later hlater with ⟨hlater, -⟩ | ⟨before, hbefore, hip, -⟩
          · rwa [hlater]
          · rw [← hip]
            rcases rel_of_pairwise_cons hpacked hbefore with ⟨hzero, -⟩ | ⟨-, hne⟩
            · exact absurd hzero hfree
            · exact hne
        · rw [length_cons, hserved.length, length_cons]
        · rw [forall_mem_cons]
          refine ⟨.inr ⟨slot, mem_cons_self, rfl, rfl⟩, fun later hlater ↦ ?_⟩
          refine (hserved.origin later hlater).imp_right ?_
          rintro ⟨before, hbefore, hsame⟩
          exact ⟨before, mem_cons_of_mem slot hbefore, hsame⟩
        · rw [windowOf, if_neg hown, windowOf, if_neg hown, hserved.window]
        · rw [windowOf, if_neg hown, hserved.verdict]
        · intro other hother hnonzero
          rw [windowOf, windowOf, hserved.others other hother hnonzero]

theorem slotLoop_eq_none (hloop : slotLoop rate client now slots = none) :
    ∀ slot ∈ slots, slot.ip ≠ client ∧ slot.ip ≠ 0 := by
  induction slots with
  | nil => simp
  | cons slot slots ih =>
    rw [slotLoop] at hloop
    split_ifs at hloop with hown hfree
    exact forall_mem_cons.mpr ⟨⟨hown, hfree⟩, ih (map_eq_none_iff.mp hloop)⟩

/-- What holds between the calls: the table holds nothing but clients of the run. -/
structure Tidy (clients : List UInt32) (last : UInt64) (slots : List RateSlot) : Prop where
  packed : Packed slots
  length : slots.length = kRateSlots
  past : ∀ slot ∈ slots, slot.windowStartMs ≤ last
  known : ∀ slot ∈ slots, slot.ip = 0 ∨ slot.ip ∈ clients

theorem Tidy.isSome (htidy : Tidy clients last slots) (hfew : clients.dedup.length ≤ kRateSlots)
    (hmem : client ∈ clients) : slotLoop rate client now slots ≠ none := by
  intro hnone
  have hothers := slotLoop_eq_none hnone
  -- then the clients of the slots and this one are too many
  have hdistinct : (client :: slots.map (·.ip)).Nodup := by
    refine nodup_cons.mpr ⟨?_, pairwise_map.mpr (htidy.packed.imp_of_mem ?_)⟩
    · intro hown
      obtain ⟨slot, hslot, hip⟩ := List.mem_map.mp hown
      exact (hothers slot hslot).1 hip
    · rintro former later hformer - (⟨hzero, -⟩ | ⟨-, hne⟩)
      · exact absurd hzero (hothers former hformer).2
      · exact hne
  have hsub : client :: slots.map (·.ip) ⊆ clients.dedup := by
    refine cons_subset.mpr ⟨mem_dedup.mpr hmem, fun ip hip ↦ ?_⟩
    obtain ⟨slot, hslot, rfl⟩ := List.mem_map.mp hip
    exact mem_dedup.mpr ((htidy.known slot hslot).resolve_left (hothers slot hslot).2)
  have hcount := (hdistinct.subperm hsub).length_le
  rw [length_cons, length_map, htidy.length] at hcount
  omega

theorem Tidy.served (htidy : Tidy clients last slots) (hserved : Served rate client now slots limited slots')
    (hlast : last ≤ now) (hmem : client ∈ clients) : Tidy clients now slots' := by
  refine ⟨hserved.packed, hserved.length.trans htidy.length, fun slot hslot ↦ ?_, fun slot hslot ↦ ?_⟩
  · rcases hserved.origin slot hslot with ⟨-, hstart⟩ | ⟨before, hbefore, -, hstart⟩
    · exact hstart ▸ UInt64.le_refl _
    · exact hstart ▸ UInt64.le_trans (htidy.past before hbefore) hlast
  · rcases hserved.origin slot hslot with ⟨hip, -⟩ | ⟨before, hbefore, hip, -⟩
    · exact .inr (hip ▸ hmem)
    · exact hip ▸ htidy.known before hbefore

theorem Tidy.rateLimited (hrate : rate ≠ 0) (htidy : Tidy clients last slots)
    (hfew : clients.dedup.length ≤ kRateSlots) (hclient : client ≠ 0) (hmem : client ∈ clients)
    (hlast : last ≤ now) :
    Served rate client now slots (rateLimited rate slots client now).1
      (rateLimited rate slots client now).2 := by
  have hpast : ∀ slot ∈ slots, slot.windowStartMs ≤ now := fun slot hslot ↦
    UInt64.le_trans (htidy.past slot hslot) hlast
  have hroom : slotLoop rate client now slots ≠ none := htidy.isSome hfew hmem
  obtain ⟨⟨limited, slots'⟩, hloop⟩ := ne_none_iff_exists'.mp hroom
  rw [RateLimit.rateLimited, if_neg hrate, hloop]
  exact served_of_slotLoop hrate hclient htidy.packed hpast hloop

theorem answersTo_answerCalls (hrate : rate ≠ 0) (hfew : clients.dedup.length ≤ kRateSlots)
    (hclient : client ≠ 0) (htidy : Tidy clients last slots)
    (hordered : calls.Pairwise fun earlier later ↦ earlier.nowMs ≤ later.nowMs)
    (hcalls : ∀ call ∈ calls, call.clientIp ≠ 0 ∧ call.clientIp ∈ clients ∧ last ≤ call.nowMs) :
    answersTo client (answerCalls rate slots calls) =
      (answers rate.toNat 1000 (windowOf client slots) (timesOf client calls)).map
        fun answer ↦ (answer.1, !answer.2) := by
  induction calls generalizing slots last with
  | nil => rfl
  | cons call calls ih =>
    obtain ⟨⟨hnonzero, hmem, hlast⟩, hcalls⟩ := forall_mem_cons.mp hcalls
    obtain ⟨hlater, hordered⟩ := pairwise_cons.mp hordered
    have hserved := htidy.rateLimited hrate hfew hnonzero hmem hlast
    have hrest := ih (htidy.served hserved hlast hmem) hordered fun later hmem ↦
      ⟨(hcalls later hmem).1, (hcalls later hmem).2.1, hlater later hmem⟩
    rw [answerCalls]
    by_cases hown : call.clientIp = client
    · subst hown
      have htimes : timesOf call.clientIp (call :: calls) =
          call.nowMs.toNat :: timesOf call.clientIp calls := by
        simp [timesOf]
      have hanswers (limited : Bool) (answers : List (Call × Bool)) :
          answersTo call.clientIp ((call, limited) :: answers) =
            (call.nowMs.toNat, limited) :: answersTo call.clientIp answers := by
        simp [answersTo]
      rw [htimes, hanswers, hrest, hserved.window, answers, hserved.verdict]
      rfl
    · have htimes : timesOf client (call :: calls) = timesOf client calls := by simp [timesOf, hown]
      have hanswers (limited : Bool) (answers : List (Call × Bool)) :
          answersTo client ((call, limited) :: answers) = answersTo client answers := by
        simp [answersTo, hown]
      rw [htimes, hanswers, hrest, hserved.others client (Ne.symm hown) hclient]

theorem tidy_initialSlots (clients : List UInt32) : Tidy clients 0 initialSlots := by
  have hfree : ∀ slot ∈ initialSlots, slot = {} := fun slot hslot ↦ eq_of_mem_replicate hslot
  refine ⟨?_, rfl, fun slot hslot ↦ ?_, fun slot hslot ↦ .inl (hfree slot hslot ▸ rfl)⟩
  · exact pairwise_replicate.mpr (.inr (.inl ⟨rfl, rfl⟩))
  · exact hfree slot hslot ▸ UInt64.le_refl _

theorem windowOf_initialSlots (hclient : client ≠ 0) : windowOf client initialSlots = none :=
  windowOf_eq_none fun slot hslot ↦ by
    rw [eq_of_mem_replicate hslot]
    exact hclient.symm

theorem map_fst_answerCalls (rate : UInt32) (slots : List RateSlot) (calls : List Call) :
    (answerCalls rate slots calls).map (·.1) = calls := by
  induction calls generalizing slots with
  | nil => rfl
  | cons call calls ih => rw [answerCalls, map_cons, ih]

theorem answersTo_zero (hnonzero : ∀ call ∈ calls, call.clientIp ≠ 0) :
    answersTo 0 (answerCalls rate slots calls) = [] := by
  rw [answersTo, map_eq_nil_iff, filter_eq_nil_iff]
  intro answer hanswer
  have hcall : answer.1 ∈ calls := by
    rw [← map_fst_answerCalls rate slots calls]
    exact mem_map_of_mem hanswer
  simpa using hnonzero answer.1 hcall

theorem Orderly.answersTo_eq (hrate : rate ≠ 0) (horderly : Orderly calls) (client : UInt32) :
    answersTo client (answerCalls rate initialSlots calls) =
      (answers rate.toNat 1000 none (timesOf client calls)).map fun answer ↦ (answer.1, !answer.2) := by
  have hcalls : ∀ call ∈ calls,
      call.clientIp ≠ 0 ∧ call.clientIp ∈ calls.map (·.clientIp) ∧ (0 : UInt64) ≤ call.nowMs :=
    fun call hcall ↦ ⟨horderly.nonzero call hcall, mem_map_of_mem hcall,
      UInt64.le_iff_toNat_le.mpr (Nat.zero_le _)⟩
  by_cases hclient : client = 0
  · have htimes : timesOf 0 calls = [] := by
      rw [timesOf, map_eq_nil_iff, filter_eq_nil_iff]
      exact fun call hcall ↦ by simpa using horderly.nonzero call hcall
    rw [hclient, answersTo_zero horderly.nonzero, htimes]
    rfl
  · rw [← windowOf_initialSlots hclient]
    exact answersTo_answerCalls hrate horderly.few hclient (tidy_initialSlots _) horderly.ordered hcalls

theorem Orderly.timesOf_ordered (horderly : Orderly calls) (client : UInt32) :
    (timesOf client calls).Pairwise (· ≤ ·) :=
  pairwise_map.mpr ((horderly.ordered.imp UInt64.le_iff_toNat_le.mp).filter _)

theorem Orderly.repliesTo_eq (hrate : rate ≠ 0) (horderly : Orderly calls) (client : UInt32) :
    repliesTo client (answerCalls rate initialSlots calls) =
      admitted (answers rate.toNat 1000 none (timesOf client calls)) := by
  rw [repliesTo, horderly.answersTo_eq hrate, admitted, List.filter_map, List.map_map]
  simp [Function.comp_def]

/-- A run of calls keeps the promise exactly when no client's window is followed too closely by its next
one. -/
theorem keepsPromise_iff (hrate : rate ≠ 0) (horderly : Orderly calls) :
    KeepsPromise rate calls ↔ WellSpaced rate calls := by
  have hlimit : 0 < rate.toNat := Nat.pos_of_ne_zero fun hzero ↦ hrate (UInt32.toNat_inj.mp hzero)
  have hbounded (client : UInt32) :
      KeepsLimit rate.toNat 1000 (repliesTo client (answerCalls rate initialSlots calls)) ↔
        (windows 1000 (timesOf client calls)).IsChain (Smooth rate.toNat 1000) := by
    rw [horderly.repliesTo_eq hrate]
    exact keepsLimit_admitted_iff hlimit (by decide) (horderly.timesOf_ordered client)
  constructor
  · intro hkeeps client
    exact (hbounded client).mp (hkeeps.bounded client)
  · intro hspaced
    refine ⟨fun client ↦ (hbounded client).mpr (hspaced client), ?_, ?_⟩
    · intro client hfew answer hanswer
      rw [horderly.answersTo_eq hrate] at hanswer
      obtain ⟨verdict, hverdict, rfl⟩ := List.mem_map.mp hanswer
      rw [KeepsLimit.admitted hlimit (by decide) (horderly.timesOf_ordered client) hfew verdict hverdict]
      rfl
    · intro client others hothers hsame
      rw [hothers.answersTo_eq hrate, horderly.answersTo_eq hrate, hsame]

/-- Calls of two clients; the first one's third call starts its second window. -/
def boundaryCalls : List Call :=
  [⟨0xC0A8010A, 5000⟩, ⟨0xC0A8010B, 5400⟩, ⟨0xC0A8010A, 5999⟩, ⟨0xC0A8010A, 6000⟩, ⟨0xC0A8010A, 6001⟩]

theorem orderly_boundaryCalls : Orderly boundaryCalls := ⟨by decide, by decide, by decide⟩

theorem keepsPromise_iff_of_boundaryCalls :
    Orderly boundaryCalls ∧ (KeepsPromise 2 boundaryCalls ↔ WellSpaced 2 boundaryCalls) :=
  ⟨orderly_boundaryCalls, keepsPromise_iff (by decide) orderly_boundaryCalls⟩

/-- Around the end of a window a client gets three replies in 3 ms with a limit of two in a second. -/
theorem limit_exceeded_around_restart :
    ¬∀ rate calls, rate ≠ 0 → Orderly calls → KeepsPromise rate calls := by
  intro hkeeps
  have hbounded := (hkeeps 2 boundaryCalls (by decide) orderly_boundaryCalls).bounded 0xC0A8010A 5999
  revert hbounded
  decide

end DhcpServer.Time.RateLimit
