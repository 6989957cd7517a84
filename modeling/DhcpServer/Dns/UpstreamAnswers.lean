import DhcpServer.Dns.CacheRoundTrip
import DhcpServer.Dns.SlotReplies

/-!
# What the built-in cache learns from the upstream server

The addresses of a datagram are read as one list of texts, whatever the query asked for; the store
reads each text by the type of the query, and a text of the other family leaves the place in the
record as it was. The list is the one of the query's type exactly when the first addresses of the
datagram, as many as a record has room for, are all of that type.
-/

namespace DhcpServer.Dns.InternalCache

open Library Option
open List hiding Vector

variable {arena arena' : Arena} {inet : Inet} {index : Nat} {domain : Bytes} {qtype : UInt16}
  {payload : Payload}

theorem noteMark_counters (arena : Arena) (index : Nat) :
    (arena.noteMark index).counters = arena.counters := by
  unfold Arena.noteMark
  dsimp only
  repeat' split
  all_goals rfl

theorem writeRecord_stores (arena : Arena) (inet : Inet) (index : Nat) (payload : Payload)
    (now : UInt32) :
    (arena.writeRecord inet index payload now).counters.stores = arena.counters.stores + 1 := by
  unfold Arena.writeRecord
  cases payload.usesExact with
  | none =>
    unfold Arena.bumpUse
    rw [noteMark_counters]
  | some uses => rw [noteMark_counters]

theorem unlinkNode_counters {bucket : Nat} (hunlink : arena.unlinkNode bucket index = some arena') :
    arena'.counters = arena.counters := by
  obtain ⟨previous, -, hunlink⟩ := bind_eq_some_iff.mp hunlink
  cases previous with
  | none =>
    cases hunlink
    rfl
  | some before =>
    cases hunlink
    cases before <;> rfl

theorem takeNode_stores {now : UInt32} {scanUs : Nat} {taken : Arena} {found : Option Nat}
    (htake : arena.takeNode now scanUs = some (taken, found)) :
    taken.counters.stores = arena.counters.stores := by
  have halloc (arena : Arena) : arena.allocNode.1.counters = arena.counters := by
    unfold Arena.allocNode
    split <;> rfl
  unfold Arena.takeNode at htake
  split at htake
  · rename_i taken index heq
    cases htake
    rw [← halloc arena, heq]
  · obtain ⟨⟨victim, scanned⟩, -, htake⟩ := bind_eq_some_iff.mp htake
    cases victim with
    | none =>
      cases htake
      rfl
    | some victim =>
      obtain ⟨unlinked, hunlink, htake⟩ := bind_eq_some_iff.mp htake
      have hcounters := unlinkNode_counters hunlink
      obtain rfl : _ = taken := congrArg Prod.fst (Option.some.inj htake)
      rw [halloc]
      simp [hcounters]

theorem storeInternal_stores (hwell : WellFormed arena)
    (hstorable : Storable domain qtype payload.ips) {now : UInt32} {scanUs : Nat}
    (hstore : arena.storeInternal inet domain qtype payload now scanUs = some arena') :
    arena'.counters.stores = arena.counters.stores + 1 := by
  rw [storeInternal_storable hstorable] at hstore
  obtain ⟨⟨found, walked⟩, hfind, hstore⟩ := bind_eq_some_iff.mp hstore
  cases found with
  | some index =>
    cases hstore
    exact writeRecord_stores arena inet index payload now
  | none =>
    have hnew : arena.recordOf (keyName domain, qtype) = none := by
      simp [Arena.recordOf, hfind]
    obtain ⟨taken, index, old, htake, -⟩ :=
      hwell.linkNode (keyName domain, qtype) hnew inet payload now scanUs
    simp only [htake, bind_some, Option.some.injEq] at hstore
    have hcount : taken.counters.stores = arena.counters.stores := takeNode_stores htake
    rw [← hstore, writeRecord_stores, ← hcount]
    rfl

/-! ## The addresses of a record -/

def kMaxAddresses (qtype : UInt16) : Nat := if qtype = kTypeA then kMaxA else kMaxAaaa

/-- `inet_pton` for the family of the type. -/
def Inet.pton (inet : Inet) (qtype : UInt16) (text : Bytes) : Option Bytes :=
  if qtype = kTypeA then (inet.pton4 text).map Vector.toList
  else (inet.pton6 text).map Vector.toList

def Node.slots (node : Node) : List Bytes :=
  if node.qtype = kTypeA then node.a4.toList.map Vector.toList
  else node.a6.toList.map Vector.toList

def Node.addresses (node : Node) : List Bytes :=
  node.slots.take (if node.qtype = kTypeA then node.nA else node.nAaaa)

theorem addresses_record (node : Node) : node.record.addresses = node.addresses := rfl

theorem length_slots (node : Node) : node.slots.length = kMaxAddresses node.qtype := by
  unfold Node.slots kMaxAddresses
  split <;> simp

/-- The texts are read in order into the slots, and one that does not parse leaves its slot. -/
def readTexts (inet : Inet) (qtype : UInt16) (ips slots : List Bytes) : List Bytes :=
  List.zipWith (fun ip slot ↦ (inet.pton qtype (cString ip)).getD slot) ips slots

theorem fillAddresses_eq_zipWith {width room : Nat} (pton : Bytes → Option (Vector UInt8 width))
    (old : Vector (Vector UInt8 width) room) (ips : List Bytes) :
    ((fillAddresses pton old ips).toList.map Vector.toList).take (addressCount room ips) =
      List.zipWith (fun ip slot ↦ ((pton (cString ip)).map Vector.toList).getD slot) ips
        (old.toList.map Vector.toList) := by
  apply ext_getElem
  · simp [addressCount]
  · intro i hleft hright
    have hips : i < ips.length := by
      simp only [length_zipWith] at hright
      omega
    simp only [getElem_take, getElem_map, getElem_zipWith, Vector.getElem_toList,
      fillAddresses, Vector.getElem_ofFn, getElem?_eq_getElem hips, bind_some]
    cases pton (cString ips[i]) <;> rfl

theorem written_addresses (node : Node) (inet : Inet) (payload : Payload) (now : UInt32) :
    (node.written inet payload now).addresses =
      readTexts inet node.qtype payload.ips node.slots := by
  by_cases hqtype : node.qtype = kTypeA
  · simp only [Node.addresses, Node.slots, Node.written, Node.withAddresses, hqtype, if_true,
      readTexts, Inet.pton]
    exact fillAddresses_eq_zipWith inet.pton4 node.a4 payload.ips
  · simp only [Node.addresses, Node.slots, Node.written, Node.withAddresses, hqtype, if_false,
      readTexts, Inet.pton]
    exact fillAddresses_eq_zipWith inet.pton6 node.a6 payload.ips

theorem readTexts_of_parsed {ips slots values : List Bytes}
    (hparsed : List.Forall₂ (fun ip value ↦ inet.pton qtype (cString ip) = some value)
      (ips.take slots.length) values) : readTexts inet qtype ips slots = values := by
  induction slots generalizing ips values with
  | nil =>
    simp only [length_nil, take_zero, forall₂_nil_left_iff] at hparsed
    rw [hparsed, readTexts, zipWith_nil_right]
  | cons slot slots ih =>
    cases ips with
    | nil =>
      simp only [take_nil, forall₂_nil_left_iff] at hparsed
      rw [hparsed]
      rfl
    | cons ip ips =>
      obtain ⟨value, rest, hvalue, hrest, rfl⟩ := forall₂_cons_left_iff.mp hparsed
      have htail := ih hrest
      simp only [readTexts, zipWith_cons_cons, hvalue, getD_some] at htail ⊢
      rw [htail]

theorem parsed_of_readTexts_eq {ips : List Bytes} {first second : Bytes} (hne : first ≠ second)
    (room : Nat)
    (heq : readTexts inet qtype ips (List.replicate room first) =
      readTexts inet qtype ips (List.replicate room second)) :
    ∀ ip ∈ ips.take room, inet.pton qtype (cString ip) ≠ none := by
  induction room generalizing ips with
  | zero => simp
  | succ room ih =>
    cases ips with
    | nil => simp
    | cons ip ips =>
      simp only [readTexts, replicate_succ, zipWith_cons_cons, cons.injEq] at heq
      obtain ⟨hhead, htail⟩ := heq
      intro other hother hnone
      rcases mem_cons.mp (take_succ_cons ▸ hother) with rfl | hlater
      · rw [hnone] at hhead
        exact hne hhead
      · exact ih htail other hlater hnone

/-- What a store leaves: the texts read into the slots of the record that was there, or of the node
it took. -/
theorem Stored.addresses {now : UInt32} {old : Node}
    (hstored : Stored arena arena' inet (domain, qtype) payload now index old) :
    ∃ record slots, arena'.recordOf (domain, qtype) = some record ∧ record.qtype = qtype ∧
      record.addresses = readTexts inet qtype payload.ips slots ∧
      slots.length = kMaxAddresses qtype ∧
      ∀ before, arena.recordOf (domain, qtype) = some before → before.slots = slots := by
  have hqtype : old.qtype = qtype := congrArg Prod.snd hstored.key_eq
  have hwritten : (old.written inet payload now).qtype = qtype :=
    congrArg Prod.snd ((written_key old inet payload now).trans hstored.key_eq)
  refine ⟨_, old.slots, hstored.recordOf_self, hwritten, ?_, ?_, fun before hbefore ↦ ?_⟩
  · rw [addresses_record, written_addresses, hqtype]
  · rw [length_slots, hqtype]
  · rcases hstored.old_eq with hold | ⟨hnone, -⟩
    · obtain rfl := Option.some.inj (hold.symm.trans hbefore)
      rfl
    · rw [hnone] at hbefore
      cases hbefore

theorem slots_of_full {record : Node} (hfull : record.addresses.length = record.slots.length) :
    record.slots = record.addresses := by
  rw [Node.addresses] at hfull ⊢
  rw [length_take] at hfull
  exact (take_of_length_le (by omega)).symm

theorem exists_filled {text value : Bytes} (hstorable : Storable domain qtype [text])
    (htext : inet.pton qtype (cString text) = some value) :
    ∃ calls cache arena, steps (Cache.step inet) (Cache.initial false) calls = some cache ∧
      cache.arena = some arena ∧ ∃ record, arena.recordOf (keyName domain, qtype) = some record ∧
        record.slots = List.replicate (kMaxAddresses qtype) value := by
  let payload : Payload := ⟨List.replicate (kMaxAddresses qtype) text, 0, none⟩
  have hroom : kMaxAddresses qtype ≠ 0 := by
    unfold kMaxAddresses
    split <;> decide
  have hfilled : Storable domain qtype payload.ips :=
    ⟨hstorable.domain_ne_nil, by simp [payload, hroom], hstorable.qtype_eq, hstorable.length_lt⟩
  obtain ⟨cache, arena, fresh, index, old, hsteps, harena, -, hstored⟩ :=
    CacheFile.exists_single_store inet payload hfilled 0
  obtain ⟨record, slots, hrecord, hqtype, haddresses, hslots, -⟩ := hstored.addresses
  have hvalues : record.addresses = List.replicate (kMaxAddresses qtype) value := by
    rw [haddresses]
    apply readTexts_of_parsed
    rw [hslots, take_of_length_le (by simp [payload])]
    simp only [payload]
    induction kMaxAddresses qtype with
    | zero => exact .nil
    | succ room ih => exact .cons htext ih
  have hfull : record.slots = record.addresses := by
    apply slots_of_full
    rw [hvalues, length_slots, hqtype, length_replicate]
  exact ⟨_, cache, arena, hsteps, harena, record, hrecord, hfull.trans hvalues⟩

end DhcpServer.Dns.InternalCache

namespace DhcpServer.Dns.Message

open Library

open InternalCache (Inet V4 V6 kTypeA kTypeAaaa)

variable {inet : Inet} {qtype : UInt16} {record : AnswerRecord} {ip : Bytes}

/-! ## The addresses of a datagram -/

def addressBytes (qtype : UInt16) : Nat := if qtype = kTypeA then 4 else 16

def AnswerRecord.answers (qtype : UInt16) (record : AnswerRecord) : Bool :=
  record.type == qtype && record.rdata.length == addressBytes qtype

def AnswerRecord.isAddress (record : AnswerRecord) : Bool :=
  record.answers kTypeA || record.answers kTypeAaaa

def addressRecords (data : Bytes) : List AnswerRecord := (answerRecords data).filter AnswerRecord.isAddress

/-- The addresses of the answer records of one type, in order. -/
def answersFor (qtype : UInt16) (data : Bytes) : List Bytes :=
  ((answerRecords data).filter (AnswerRecord.answers qtype)).map AnswerRecord.rdata

def IsResponse (data : Bytes) : Prop := readU16 data kFlags1Offset &&& kFlagQr ≠ 0

/-- `inet_pton` reads the texts the server writes, and each only as an address of its family. -/
structure Textual (inet : Inet) : Prop where
  quad4 : ∀ address : V4, inet.pton4 (cString (dottedQuad address.toList)) = some address
  text6 : ∀ address : V6, inet.pton6 (cString (inet.ntop6 address)) = some address
  quad6 : ∀ address : V4, inet.pton6 (cString (dottedQuad address.toList)) = none
  text4 : ∀ address : V6, inet.pton4 (cString (inet.ntop6 address)) = none

theorem parseForwardAnswer_ips (inet : Inet) (data : Bytes) :
    (parseForwardAnswer inet data).1 = (answerRecords data).filterMap (AnswerRecord.ip inet) := by
  have hfold (records : List AnswerRecord) (found : List Bytes × UInt32) :
      (records.foldl (collectAnswer inet) found).1 =
        found.1 ++ records.filterMap (AnswerRecord.ip inet) := by
    induction records generalizing found with
    | nil => simp
    | cons record records ih =>
      rw [List.foldl_cons, List.filterMap_cons, ih, collectAnswer]
      cases record.ip inet with
      | none => rfl
      | some ip => simp
  exact hfold (answerRecords data) ([], 0)

theorem ip_cases (hip : record.ip inet = some ip) :
    (record.answers kTypeA = true ∧ ∃ address : V4, record.rdata = address.toList ∧
      ip = dottedQuad address.toList) ∨
    (record.answers kTypeAaaa = true ∧ ∃ address : V6, record.rdata = address.toList ∧
      ip = inet.ntop6 address) := by
  unfold AnswerRecord.ip at hip
  split_ifs at hip with hquad htype hlength
  · cases hip
    refine .inl ⟨?_, ⟨record.rdata.toArray, by simpa using hquad.2⟩, rfl, rfl⟩
    simp [AnswerRecord.answers, addressBytes, hquad]
  · cases hip
    refine .inr ⟨?_, _, rfl, rfl⟩
    have hne : kTypeAaaa ≠ kTypeA := by decide
    simp [AnswerRecord.answers, addressBytes, htype, hlength, hne]

theorem ip_eq_none_iff : record.ip inet = none ↔ record.isAddress = false := by
  have hne : kTypeAaaa ≠ kTypeA := by decide
  unfold AnswerRecord.ip AnswerRecord.isAddress AnswerRecord.answers addressBytes
  split_ifs <;> simp_all

theorem ips_forall₂ (inet : Inet) (data : Bytes) :
    List.Forall₂ (fun record ip ↦ record.ip inet = some ip) (addressRecords data)
      (parseForwardAnswer inet data).1 := by
  rw [parseForwardAnswer_ips, addressRecords]
  induction answerRecords data with
  | nil => exact .nil
  | cons record records ih =>
    rw [List.filter_cons, List.filterMap_cons]
    cases hip : record.ip inet with
    | none =>
      rw [if_neg (by simp [ip_eq_none_iff.mp hip])]
      exact ih
    | some ip =>
      have haddress : record.isAddress := by
        by_contra hother
        have hnone : record.ip inet = none := ip_eq_none_iff.mpr (Bool.not_eq_true _ ▸ hother)
        rw [hnone] at hip
        cases hip
      rw [if_pos haddress]
      exact .cons hip ih

theorem answers_unique {other : UInt16} (hanswers : record.answers qtype)
    (hother : record.answers other) : qtype = other := by
  simp only [AnswerRecord.answers, Bool.and_eq_true, beq_iff_eq] at hanswers hother
  exact hanswers.1.symm.trans hother.1

/-- A store for the type reads the text of a record as the record's own address, or not at all. -/
theorem Textual.pton_ip (htextual : Textual inet) (hqtype : qtype = kTypeA ∨ qtype = kTypeAaaa)
    (hip : record.ip inet = some ip) :
    inet.pton qtype (cString ip) = if record.answers qtype then some record.rdata else none := by
  have hne : kTypeAaaa ≠ kTypeA := by decide
  rcases ip_cases hip with ⟨hanswers, address, hrdata, rfl⟩ | ⟨hanswers, address, hrdata, rfl⟩
  · rcases hqtype with rfl | rfl
    · rw [if_pos hanswers, hrdata, Inet.pton, if_pos rfl, htextual.quad4]
      rfl
    · have hother : ¬ record.answers kTypeAaaa = true :=
        fun hother ↦ hne (answers_unique hother hanswers)
      rw [if_neg hother, Inet.pton, if_neg hne, htextual.quad6]
      rfl
  · rcases hqtype with rfl | rfl
    · have hother : ¬ record.answers kTypeA = true :=
        fun hother ↦ hne (answers_unique hanswers hother)
      rw [if_neg hother, Inet.pton, if_pos rfl, htextual.text4]
      rfl
    · rw [if_pos hanswers, hrdata, Inet.pton, if_neg hne, htextual.text6]
      rfl

theorem answersFor_eq (hqtype : qtype = kTypeA ∨ qtype = kTypeAaaa) (data : Bytes) : answersFor qtype data =
      ((addressRecords data).filter (AnswerRecord.answers qtype)).map AnswerRecord.rdata := by
  rw [answersFor, addressRecords, List.filter_filter]
  congr 2
  funext record
  rcases hqtype with rfl | rfl <;> simp only [AnswerRecord.isAddress]
  · cases record.answers kTypeA <;> simp
  · cases record.answers kTypeAaaa <;> simp

end DhcpServer.Dns.Message

namespace DhcpServer.Dns.ForwardSlots

open Library Option
open List hiding Vector

open ExternalCache (onSettings)

open InternalCache (Inet Arena Cache Storable keyName kTypeA kTypeAaaa kMaxAddresses readTexts lower)

open Message (IsResponse Textual addressBytes addressRecords answersFor parseForwardAnswer
  transactionId)

variable {inet : Inet} {arena arena' : Arena} {state state' : State} {outputs : List Output}
  {slot : PendingForward} {index : Nat} {bytes : Bytes}

/-! ## What is learnt -/

def upstreamReply (inet : Inet) (bytes : Bytes) : UpstreamReply :=
  ⟨bytes, (parseForwardAnswer inet bytes).1, (parseForwardAnswer inet bytes).2.toNat⟩

def learn (inet : Inet) (now : UInt32) (scanUs : Nat) (arena : Arena) (outputs : List Output) :
    Option Arena :=
  outputs.foldlM (fun arena output ↦
    match output with
    | .stored slot ips ttl _ =>
      arena.storeInternal inet slot.domain slot.qtype ⟨ips, UInt32.ofNat ttl, none⟩ now scanUs
    | .replied _ _ _ => some arena) arena

/-- If a record was stored, the datagram answers the query, and the record has the addresses of
the answers of its type. -/
def LearnsAnswers (slot : PendingForward) (bytes : Bytes) (arena arena' : Arena) : Prop :=
  arena'.counters.stores ≠ arena.counters.stores → IsResponse bytes ∧ transactionId bytes = some slot.qid ∧
      ∃ record, arena'.recordOf (keyName slot.domain, slot.qtype) = some record ∧
        record.addresses = (answersFor slot.qtype bytes).take (kMaxAddresses slot.qtype)

/-- Unless there is nothing to store, the datagram is a response with the query's id, and its first
addresses are of the query's type. -/
def OwnAnswers (slot : PendingForward) (bytes : Bytes) : Prop :=
  slot.domain ≠ [] → (lower slot.domain).length < InternalCache.kMaxNameLen → addressRecords bytes ≠ [] →
    IsResponse bytes ∧ transactionId bytes = some slot.qid ∧
      ∀ record ∈ (addressRecords bytes).take (kMaxAddresses slot.qtype),
        record.answers slot.qtype = true

theorem ips_eq_nil_iff (inet : Inet) (bytes : Bytes) :
    (parseForwardAnswer inet bytes).1 = [] ↔ addressRecords bytes = [] := by
  have hlength := (Message.ips_forall₂ inet bytes).length_eq
  rw [← length_eq_zero_iff, ← length_eq_zero_iff, hlength]

def storedTtl (inet : Inet) (bytes : Bytes) : Nat :=
  if (upstreamReply inet bytes).answerTtl = 0 then kDefaultTtlSec
  else (upstreamReply inet bytes).answerTtl

theorem learn_upstream (hstep : state.step (.upstream index (some (upstreamReply inet bytes))) =
    some (state', outputs)) (now : UInt32) (scanUs : Nat) (arena : Arena) :
    learn inet now scanUs arena outputs =
      if state.internalAvailable = true ∧ addressRecords bytes ≠ [] then
        arena.storeInternal inet (state.slots index).domain (state.slots index).qtype
          ⟨(parseForwardAnswer inet bytes).1, UInt32.ofNat (storedTtl inet bytes), none⟩ now scanUs
      else some arena := by
  simp only [State.step] at hstep
  split_ifs at hstep
  cases hstep
  by_cases hempty : bytes = []
  · subst hempty
    have hnone : addressRecords [] = [] := rfl
    simp [upstreamReply, Option.filter, hnone, learn]
  · have hkept : (some (upstreamReply inet bytes)).filter (fun reply ↦ !reply.bytes.isEmpty) =
        some (upstreamReply inet bytes) := by
      simp [Option.filter, upstreamReply, hempty]
    have hstores : (!(upstreamReply inet bytes).answerIps.isEmpty && state.internalAvailable) = true ↔
        state.internalAvailable = true ∧ addressRecords bytes ≠ [] := by
      rw [Bool.and_eq_true, Bool.not_eq_true', isEmpty_eq_false_iff, ne_eq,
        show (upstreamReply inet bytes).answerIps = (parseForwardAnswer inet bytes).1 from rfl,
        ips_eq_nil_iff, and_comm]
    rw [hkept]
    simp only [hstores]
    change learn inet now scanUs arena ((if _ then [.stored _ _ (storedTtl inet bytes) _] else _) ++ _) = _
    by_cases hboth : state.internalAvailable = true ∧ addressRecords bytes ≠ []
    · rw [if_pos hboth, if_pos hboth]
      simp [learn, upstreamReply]
    · rw [if_neg hboth, if_neg hboth]
      rfl

/-- What a store for the type makes of the text of a record. -/
def ReadsAs (inet : Inet) (qtype : UInt16) (record : Message.AnswerRecord) (ip : Bytes) : Prop :=
  inet.pton qtype (cString ip) = if record.answers qtype then some record.rdata else none

theorem readsAs_ips (htextual : Textual inet) {qtype : UInt16}
    (hqtype : qtype = kTypeA ∨ qtype = kTypeAaaa) (bytes : Bytes) (room : Nat) :
    List.Forall₂ (ReadsAs inet qtype) ((addressRecords bytes).take room)
      ((parseForwardAnswer inet bytes).1.take room) := by
  apply forall₂_take
  exact (Message.ips_forall₂ inet bytes).imp fun record ip hip ↦ htextual.pton_ip hqtype hip

theorem answers_of_parsed {qtype : UInt16} {records : List Message.AnswerRecord} {ips : List Bytes}
    (hreads : List.Forall₂ (ReadsAs inet qtype) records ips)
    (hparsed : ∀ ip ∈ ips, inet.pton qtype (cString ip) ≠ none) :
    ∀ record ∈ records, record.answers qtype := by
  induction hreads with
  | nil => exact fun _ h ↦ absurd h not_mem_nil
  | @cons record ip records ips hread _ ih =>
    obtain ⟨hip, hips⟩ := forall_mem_cons.mp hparsed
    refine forall_mem_cons.mpr ⟨?_, ih hips⟩
    by_contra hother
    rw [hread, if_neg hother] at hip
    exact hip rfl

theorem parsed_of_answers {qtype : UInt16} {records : List Message.AnswerRecord} {ips : List Bytes}
    (hreads : List.Forall₂ (ReadsAs inet qtype) records ips)
    (hanswers : ∀ record ∈ records, record.answers qtype) :
    List.Forall₂ (fun ip value ↦ inet.pton qtype (cString ip) = some value) ips
      (records.map Message.AnswerRecord.rdata) := by
  induction hreads with
  | nil => exact .nil
  | @cons record ip records ips hread _ ih =>
    obtain ⟨hrecord, hrecords⟩ := forall_mem_cons.mp hanswers
    rw [ReadsAs, if_pos hrecord] at hread
    exact .cons hread (ih hrecords)

theorem take_filter_of_forall {α : Type*} {p : α → Bool} {values : List α} {count : Nat}
    (hvalues : ∀ value ∈ values.take count, p value) :
    (values.filter p).take count = values.take count := by
  induction values generalizing count with
  | nil => rfl
  | cons value values ih =>
    cases count with
    | zero => rfl
    | succ count =>
      rw [take_succ_cons] at hvalues ⊢
      rw [filter_cons_of_pos (hvalues value mem_cons_self), take_succ_cons,
        ih fun other hother ↦ hvalues other (mem_cons_of_mem value hother)]

theorem exists_text (htextual : Textual inet) {qtype : UInt16}
    (hqtype : qtype = kTypeA ∨ qtype = kTypeAaaa) (byte : UInt8) :
    ∃ text, inet.pton qtype (cString text) = some (List.replicate (addressBytes qtype) byte) := by
  have hne : kTypeAaaa ≠ kTypeA := by decide
  rcases hqtype with rfl | rfl
  · refine ⟨Message.dottedQuad (Vector.replicate 4 byte).toList, ?_⟩
    rw [Inet.pton, if_pos rfl, htextual.quad4]
    rfl
  · refine ⟨inet.ntop6 (Vector.replicate 16 byte), ?_⟩
    rw [Inet.pton, if_neg hne, htextual.text6]
    rfl

/-- Every cache that calls can make, before and after the stores of the outputs. -/
def AlwaysLearnsAnswers (inet : Inet) (slot : PendingForward) (bytes : Bytes)
    (outputs : List Output) : Prop :=
  ∀ ignoreTtl calls cache arena arena' now scanUs,
    steps (Cache.step inet) (Cache.initial ignoreTtl) calls = some cache →
    cache.arena = some arena → learn inet now scanUs arena outputs = some arena' →
    LearnsAnswers slot bytes arena arena'

theorem ownAnswers_of_learns (htextual : Textual inet)
    (hstep : state.step (.upstream index (some (upstreamReply inet bytes))) =
      some (state', outputs))
    (hqtype : (state.slots index).qtype = kTypeA ∨ (state.slots index).qtype = kTypeAaaa)
    (havailable : state.internalAvailable)
    (hlearns : AlwaysLearnsAnswers inet (state.slots index) bytes outputs) :
    OwnAnswers (state.slots index) bytes := by
  intro hdomain hlength hrecords
  set slot := state.slots index with hslot
  set ips := (parseForwardAnswer inet bytes).1 with hips
  have hstorable (texts : List Bytes) (htexts : texts ≠ []) :
      Storable slot.domain slot.qtype texts := ⟨hdomain, htexts, hqtype, hlength⟩
  have hnonempty : ips ≠ [] := fun hnil ↦ hrecords ((ips_eq_nil_iff inet bytes).mp hnil)
  -- a cache whose record of the query is full of one address
  have hfilled (byte : UInt8) : IsResponse bytes ∧ transactionId bytes = some slot.qid ∧
      readTexts inet slot.qtype ips
        (List.replicate (kMaxAddresses slot.qtype)
          (List.replicate (addressBytes slot.qtype) byte)) =
        (answersFor slot.qtype bytes).take (kMaxAddresses slot.qtype) := by
    obtain ⟨text, htext⟩ := exists_text htextual hqtype byte
    obtain ⟨calls, cache, arena, hcalls, harena, before, hbefore, hslots⟩ :=
      InternalCache.exists_filled (hstorable [text] (by simp)) htext
    have hwell := (InternalCache.tidy_of_steps hcalls arena harena).wellFormed
    let payload : InternalCache.Payload := ⟨ips, UInt32.ofNat (storedTtl inet bytes), none⟩
    have hpayload : Storable slot.domain slot.qtype payload.ips := hstorable ips hnonempty
    obtain ⟨arena', taken, old, hstore, hstored⟩ := hwell.storeInternal hpayload inet 0 0
    have hlearn : learn inet 0 0 arena outputs = some arena' := by
      rw [learn_upstream hstep, if_pos ⟨havailable, hrecords⟩]
      exact hstore
    have hcount := InternalCache.storeInternal_stores hwell hpayload hstore
    obtain ⟨hresponse, hid, record, hrecord, haddresses⟩ :=
      hlearns false calls cache arena arena' 0 0 hcalls harena hlearn (by omega)
    obtain ⟨same, slots, hsame, -, hread, -, hkept⟩ := hstored.addresses
    obtain rfl := Option.some.inj (hsame.symm.trans hrecord)
    rw [← hslots, hkept before hbefore]
    exact ⟨hresponse, hid, hread.symm.trans haddresses⟩
  obtain ⟨hresponse, hid, hzeros⟩ := hfilled 0
  obtain ⟨-, -, hones⟩ := hfilled 1
  have hdiffer : List.replicate (addressBytes slot.qtype) (0 : UInt8) ≠
      List.replicate (addressBytes slot.qtype) 1 := by
    rcases hqtype with hqtype | hqtype <;> rw [hqtype] <;> decide
  have hparsed := InternalCache.parsed_of_readTexts_eq hdiffer (kMaxAddresses slot.qtype)
    (hzeros.trans hones.symm)
  exact ⟨hresponse, hid, answers_of_parsed (readsAs_ips htextual hqtype bytes _) hparsed⟩

theorem learns_of_ownAnswers (htextual : Textual inet)
    (hstep : state.step (.upstream index (some (upstreamReply inet bytes))) =
      some (state', outputs))
    (hqtype : (state.slots index).qtype = kTypeA ∨ (state.slots index).qtype = kTypeAaaa)
    (hown : state.internalAvailable → OwnAnswers (state.slots index) bytes) :
    AlwaysLearnsAnswers inet (state.slots index) bytes outputs := by
  intro ignoreTtl calls cache arena arena' now scanUs hcalls harena hlearn hstored
  set slot := state.slots index with hslot
  set ips := (parseForwardAnswer inet bytes).1 with hips
  have hwell := (InternalCache.tidy_of_steps hcalls arena harena).wellFormed
  rw [learn_upstream hstep] at hlearn
  split_ifs at hlearn with hboth
  case neg =>
    cases hlearn
    exact absurd rfl hstored
  by_cases hstorable : Storable slot.domain slot.qtype ips
  case neg =>
    rw [InternalCache.storeInternal_not_storable hstorable] at hlearn
    cases hlearn
    exact absurd rfl hstored
  obtain ⟨hresponse, hid, hanswers⟩ := hown hboth.1 hstorable.domain_ne_nil hstorable.length_lt hboth.2
  let payload : InternalCache.Payload := ⟨ips, UInt32.ofNat (storedTtl inet bytes), none⟩
  have hpayload : Storable slot.domain slot.qtype payload.ips := hstorable
  obtain ⟨same, taken, old, hstore, hwritten⟩ := hwell.storeInternal hpayload inet now scanUs
  obtain rfl : same = arena' := Option.some.inj (hstore.symm.trans hlearn)
  obtain ⟨record, slots, hrecord, -, haddresses, hslots, -⟩ := hwritten.addresses
  refine ⟨hresponse, hid, record, hrecord, ?_⟩
  calc record.addresses = readTexts inet slot.qtype ips slots := haddresses
    _ = ((addressRecords bytes).take (kMaxAddresses slot.qtype)).map
          Message.AnswerRecord.rdata := by
        apply InternalCache.readTexts_of_parsed
        rw [hslots]
        exact parsed_of_answers (readsAs_ips htextual hqtype bytes _) hanswers
    _ = (answersFor slot.qtype bytes).take (kMaxAddresses slot.qtype) := by
        rw [Message.answersFor_eq hqtype, ← map_take, take_filter_of_forall hanswers]

/-- **What the cache learns.** Whatever the cache holds, a read stores the addresses of the answers
of the query's type, out of a response to the query, exactly under `OwnAnswers`. -/
theorem learns_answers_iff (htextual : Textual inet)
    (hstep : state.step (.upstream index (some (upstreamReply inet bytes))) =
      some (state', outputs))
    (hqtype : (state.slots index).qtype = kTypeA ∨ (state.slots index).qtype = kTypeAaaa) :
    AlwaysLearnsAnswers inet (state.slots index) bytes outputs ↔
      (state.internalAvailable = true → OwnAnswers (state.slots index) bytes) :=
  ⟨fun hlearns havailable ↦ ownAnswers_of_learns htextual hstep hqtype havailable hlearns,
    learns_of_ownAnswers htextual hstep hqtype⟩

/-! ## Two datagrams -/

/-- A number of at most three digits, without leading zeros. -/
def readDecimal (text : Bytes) : Option UInt8 :=
  let byte := UInt8.ofNat (text.foldl (fun number digit ↦ number * 10 + (digit.toNat - 48)) 0)
  if Message.decimal byte = text then some byte else none

def readQuad (text : Bytes) : Option InternalCache.V4 :=
  match (text.splitOn Message.dot).mapM readDecimal with
  | some [first, second, third, fourth] => some #v[first, second, third, fourth]
  | _ => none

/-- IPv4 addresses in their usual text, IPv6 addresses in letters. -/
def quadInet : Inet where
  pton4 := readQuad
  ntop4 address := Message.dottedQuad address.toList
  pton6 text :=
    let address := CacheFile.rawAddress 16 (InternalCache.unletters text)
    if address.toList.flatMap InternalCache.letters = text then some address else none
  ntop6 address := address.toList.flatMap InternalCache.letters

theorem decimal_spec (byte : UInt8) :
    readDecimal (Message.decimal byte) = some byte ∧ Message.dot ∉ Message.decimal byte ∧
      0 ∉ Message.decimal byte := by
  have hall : ∀ number < 256, readDecimal (Message.decimal (UInt8.ofNat number)) =
      some (UInt8.ofNat number) ∧ Message.dot ∉ Message.decimal (UInt8.ofNat number) ∧
        0 ∉ Message.decimal (UInt8.ofNat number) := by
    decide +kernel
  have hbyte := hall byte.toNat byte.toNat_lt
  rwa [UInt8.ofNat_toNat] at hbyte

theorem dottedQuad_spec (address : InternalCache.V4) :
    readQuad (Message.dottedQuad address.toList) = some address ∧
      cString (Message.dottedQuad address.toList) = Message.dottedQuad address.toList := by
  obtain ⟨first, second, third, fourth, rfl⟩ : ∃ first second third fourth,
      address = #v[first, second, third, fourth] := by
    refine ⟨address[0], address[1], address[2], address[3], ?_⟩
    apply Vector.ext
    intro i hi
    match i, hi with
    | 0, _ | 1, _ | 2, _ | 3, _ => rfl
  have hspec := decimal_spec
  have hlist : (#v[first, second, third, fourth] : InternalCache.V4).toList =
      [first, second, third, fourth] := rfl
  rw [hlist]
  constructor
  · have hsplit : (Message.dottedQuad [first, second, third, fourth]).splitOn Message.dot =
        [first, second, third, fourth].map Message.decimal := by
      apply splitOn_intercalate
      · intro text htext
        obtain ⟨byte, -, rfl⟩ := List.mem_map.mp htext
        exact (hspec byte).2.1
      · simp
    rw [readQuad, hsplit]
    simp [(hspec _).1]
  · apply cString_eq_self
    have hdot : (0 : UInt8) ≠ Message.dot := by decide
    simp [Message.dottedQuad, List.intercalate, List.intersperse, (hspec _).2.2, hdot]

theorem dot_not_mem_letters (bytes : Bytes) : Message.dot ∉ bytes.flatMap InternalCache.letters := by
  intro hdot
  obtain ⟨byte, -, hmem⟩ := mem_flatMap.mp hdot
  have hbyte := byte.toNat_lt
  have hnumber : Message.dot.toNat = 46 := rfl
  simp only [InternalCache.letters, mem_cons, not_mem_nil, or_false] at hmem
  rcases hmem with heq | heq
  all_goals
    have hnumbers := congrArg UInt8.toNat heq
    rw [UInt8.toNat_ofNat', hnumber] at hnumbers
    omega

theorem readQuad_of_not_mem {text : Bytes} (htext : Message.dot ∉ text) : readQuad text = none := by
  have hsplit : text.splitOn Message.dot = [text] := by
    have hjoined : [Message.dot].intercalate [text] = text := by
      simp [List.intercalate, List.intersperse]
    have hpieces := splitOn_intercalate Message.dot
      (forall_mem_singleton.mpr htext) (cons_ne_nil text [])
    rwa [hjoined] at hpieces
  rw [readQuad, hsplit]
  cases hread : readDecimal text <;> simp [hread]

theorem pton6_letters (address : InternalCache.V6) :
    quadInet.pton6 (address.toList.flatMap InternalCache.letters) = some address := by
  simp only [quadInet, CacheFile.unletters_flatMap, CacheFile.rawAddress_toList, if_true]

theorem pton6_of_mem {text : Bytes} (htext : Message.dot ∈ text) : quadInet.pton6 text = none := by
  simp only [quadInet]
  rw [if_neg]
  intro heq
  rw [← heq] at htext
  exact dot_not_mem_letters _ htext

theorem dot_mem_dottedQuad (address : InternalCache.V4) :
    Message.dot ∈ Message.dottedQuad address.toList := by
  by_contra hnone
  have hquad := (dottedQuad_spec address).1
  rw [readQuad_of_not_mem hnone] at hquad
  cases hquad

theorem textual_quadInet : Textual quadInet := by
  constructor
  · intro address
    rw [(dottedQuad_spec address).2]
    exact (dottedQuad_spec address).1
  · intro address
    have htext : cString (quadInet.ntop6 address) = address.toList.flatMap InternalCache.letters :=
      cString_eq_self (CacheFile.zero_not_mem_letters _)
    rw [htext, pton6_letters]
  · intro address
    rw [(dottedQuad_spec address).2, pton6_of_mem (dot_mem_dottedQuad address)]
  · intro address
    have htext : cString (quadInet.ntop6 address) = address.toList.flatMap InternalCache.letters :=
      cString_eq_self (CacheFile.zero_not_mem_letters _)
    rw [htext]
    exact readQuad_of_not_mem (dot_not_mem_letters _)

/-- A reply with the id `id` and the answer 1.2.3.4 for the sample query. -/
def sampleReply (low : UInt8) : Bytes :=
  [0x12, low, 0x81, 0x80, 0, 1, 0, 1, 0, 0, 0, 0, 1, 0x61, 0, 0, 1, 0, 1,
    0xC0, 0x0C, 0, 1, 0, 1, 0, 0, 0, 60, 0, 4, 1, 2, 3, 4]

def forwardedSample : State := ((State.start onSettings true).handleQuery sampleQuery true (some 7)).1

theorem learns_answers_sample : ∃ state' outputs,
      forwardedSample.step (.upstream 0 (some (upstreamReply quadInet (sampleReply 0x34)))) =
        some (state', outputs) ∧
      (AlwaysLearnsAnswers quadInet (forwardedSample.slots 0) (sampleReply 0x34) outputs ↔
        (forwardedSample.internalAvailable = true →
          OwnAnswers (forwardedSample.slots 0) (sampleReply 0x34))) ∧
      OwnAnswers (forwardedSample.slots 0) (sampleReply 0x34) := by
  have hown : OwnAnswers (forwardedSample.slots 0) (sampleReply 0x34) := by
    refine fun _ _ _ ↦ ⟨?_, ?_, ?_⟩
    · unfold IsResponse
      decide +kernel
    · decide +kernel
    · decide +kernel
  exact ⟨_, _, rfl, learns_answers_iff textual_quadInet rfl (.inl rfl), hown⟩

/-- A datagram with the id of another query is stored all the same. -/
theorem stray_datagram_is_learnt :
    ∃ events state state' outputs, Run Step (.start onSettings true) events state ∧
      (state.slots 0).active = true ∧ (state.slots 0).qtype = kTypeA ∧
      state.step (.upstream 0 (some (upstreamReply quadInet (sampleReply 0x35)))) =
        some (state', outputs) ∧
      ¬ AlwaysLearnsAnswers quadInet (state.slots 0) (sampleReply 0x35) outputs := by
  refine ⟨[⟨.query sampleQuery true (some 7), []⟩], forwardedSample, _, _,
    .cons rfl (.nil _), rfl, rfl, rfl, fun hlearns ↦ ?_⟩
  have hown := ownAnswers_of_learns textual_quadInet rfl (.inl rfl) rfl hlearns
  have hid : transactionId (sampleReply 0x35) ≠ some (forwardedSample.slots 0).qid := by
    decide +kernel
  have hrecords : addressRecords (sampleReply 0x35) ≠ [] := by decide +kernel
  exact hid (hown (by decide) (by decide) hrecords).2.1

end DhcpServer.Dns.ForwardSlots
