import DhcpServer.Dns.QuestionEcho
import Mathlib.Data.List.DropRight

/-!
# Which addresses an answer carries

The builder takes the type of a record from the text of its address, and a text that is no address leaves the
data of the record as it was in the buffer. The lists of addresses come from the names of the device, from the
built-in cache or from the external cache, and only the built-in cache has nothing but addresses in them.
-/

/-!
## Names the device answers itself

The first steps of a query in the loop of `DnsServer`: the device's own name, then the Local Hosts, then the
built-in cache. The two lists of names are asked one after the other, and both add to one list of addresses.
A name of the Local Hosts is kept as it was typed, while the name of a query is looked up in lower case and
without a final dot.
-/

namespace DhcpServer.Dns.LocalNames

open Library List Function

open InternalCache (Cache Inet kTypeA kTypeAaaa lower)
open ExternalCache (dropTrailingDot)
open ForwardSlots (kDefaultTtlSec)

def dot : UInt8 := 0x2E

def kLocalNameSuffix : Bytes := ascii ".local"

def normalized (text : Bytes) : Bytes := (text.map toLower).rdropWhile fun byte ↦ byte == dot

def localNameMatches (query hostName : Bytes) : Bool :=
  if hostName.isEmpty then false
  else
    let asked := normalized query
    if asked.isEmpty then false
    else
      let own := normalized hostName
      asked == own || asked == own ++ kLocalNameSuffix

structure OwnName where
  enabled : Bool
  hostName : Bytes
  ip4 : Bytes
  ip6 : Bytes

/-- `localHosts_`: the addresses of each name, in the order they were added. -/
abbrev LocalHosts := Bytes → List Bytes

def noHosts : LocalHosts := fun _ ↦ []

def addLocalHost (hosts : LocalHosts) (domain ip : Bytes) : LocalHosts :=
  update hosts domain (hosts domain ++ [ip])

def lookupDomain (domain : Bytes) : Bytes := dropTrailingDot (lower domain)

def OwnName.answers (own : OwnName) (domain : Bytes) : Bool :=
  own.enabled && localNameMatches (lookupDomain domain) own.hostName

/-- Step 1a: the addresses of the device, where the query is for its name. -/
def ownAnswer (own : OwnName) (domain : Bytes) (qtype : UInt16) : Option (List Bytes) :=
  if own.answers domain then
    if qtype = kTypeA ∧ own.ip4 ≠ [] then some [own.ip4]
    else if qtype = kTypeAaaa ∧ own.ip6 ≠ [] then some [own.ip6]
    else some []
  else none

/-- The text is of the family of the type: IPv6 texts are those with a colon. -/
def ofType (qtype : UInt16) (ip : Bytes) : Bool :=
  if qtype = kTypeAaaa then ip.contains 0x3A else !ip.contains 0x3A

/-- The entry of the Local Hosts, where the query is for a name that has one. -/
def hostAnswer (hosts : LocalHosts) (domain : Bytes) (qtype : UInt16) : Option (List Bytes) :=
  match hosts (lookupDomain domain) with
  | [] => none
  | ips => if qtype = kTypeA ∨ qtype = kTypeAaaa then some (ips.filter (ofType qtype)) else some []

/-- `resolvedIps` after step 1; `none` is a query that is not found. -/
def localAnswer (own : OwnName) (hosts : LocalHosts) (domain : Bytes) (qtype : UInt16) :
    Option (List Bytes) :=
  match ownAnswer own domain qtype, hostAnswer hosts domain qtype with
  | none, none => none
  | owned, listed => some (owned.getD [] ++ listed.getD [])

/-- Steps 1 and 2: the addresses a query is answered with and their lifetime. On `none` inside it goes on to
the external cache. -/
def resolve (inet : Inet) (own : OwnName) (hosts : LocalHosts) (cache : Cache) (domain : Bytes)
    (qtype : UInt16) (now : UInt32) (waitUs : Nat) :
    Option (Cache × Option (List Bytes × UInt32)) :=
  match localAnswer own hosts domain qtype with
  | some ips => some (cache, some (ips, UInt32.ofNat kDefaultTtlSec))
  | none =>
    match cache.arena with
    | none => some (cache, none)
    | some arena =>
      if qtype = kTypeA ∨ qtype = kTypeAaaa then do
        let (arena, found) ← arena.lookup inet cache.ignoreTtl (lookupDomain domain) qtype now waitUs
        return ({ cache with arena := some arena }, found)
      else some (cache, none)

/-! ## What is said of the two lists -/

variable {own : OwnName} {hosts : LocalHosts} {domain name ip : Bytes} {qtype : UInt16}

/-- The entry answers the query, with the address if it is of the type asked for. -/
def AnsweredFrom (own : OwnName) (hosts : LocalHosts) (domain : Bytes) (qtype : UInt16) (ip : Bytes) : Prop :=
  ∃ listed sent, hostAnswer hosts domain qtype = some listed ∧
    localAnswer own hosts domain qtype = some sent ∧ (∀ address ∈ listed, address ∈ sent) ∧
    ((qtype = kTypeA ∨ qtype = kTypeAaaa) → ofType qtype ip = true → ip ∈ listed)

/-- The device's own answer does not depend on the Local Hosts, and an entry answers for its name in any
letter case. -/
structure NamesHold (own : OwnName) (domain : Bytes) (qtype : UInt16) (name : Bytes) : Prop where
  apart : own.answers domain = true → ∀ hosts hosts' : LocalHosts,
    localAnswer own hosts domain qtype = localAnswer own hosts' domain qtype
  found : lower name = lower domain → ∀ (hosts : LocalHosts) (ip : Bytes),
    AnsweredFrom own (addLocalHost hosts name ip) domain qtype ip

/-- No addresses are asked for where the own name answers, and the entry has the name the query is looked up
by. -/
structure NamesFit (own : OwnName) (domain : Bytes) (qtype : UInt16) (name : Bytes) : Prop where
  apart : own.answers domain = true → qtype ≠ kTypeA ∧ qtype ≠ kTypeAaaa
  found : lower name = lower domain → name = lookupDomain domain

theorem ownAnswer_isSome (qtype : UInt16) (hown : own.answers domain) :
    ∃ owned, ownAnswer own domain qtype = some owned := by
  rw [ownAnswer, if_pos hown]
  split_ifs
  · exact ⟨_, rfl⟩
  · exact ⟨_, rfl⟩
  · exact ⟨_, rfl⟩

theorem localAnswer_of_own {owned : List Bytes} (hown : ownAnswer own domain qtype = some owned) :
    localAnswer own hosts domain qtype = some (owned ++ (hostAnswer hosts domain qtype).getD []) := by
  rw [localAnswer, hown]
  rfl

theorem localAnswer_of_host {listed : List Bytes} (hlisted : hostAnswer hosts domain qtype = some listed) :
    localAnswer own hosts domain qtype = some ((ownAnswer own domain qtype).getD [] ++ listed) := by
  rw [localAnswer, hlisted]
  cases ownAnswer own domain qtype <;> rfl

theorem hostAnswer_noHosts : hostAnswer noHosts domain qtype = none := rfl

theorem hostAnswer_addLocalHost (hosts : LocalHosts) (domain : Bytes) (qtype : UInt16) (ip : Bytes) :
    hostAnswer (addLocalHost hosts (lookupDomain domain) ip) domain qtype =
      if qtype = kTypeA ∨ qtype = kTypeAaaa then
        some ((hosts (lookupDomain domain) ++ [ip]).filter (ofType qtype))
      else some [] := by
  have hentry : addLocalHost hosts (lookupDomain domain) ip (lookupDomain domain) =
      hosts (lookupDomain domain) ++ [ip] := update_self _ _ _
  rw [hostAnswer, hentry]
  split
  · rename_i hnil
    exact absurd hnil (by simp)
  · rfl

theorem hostAnswer_getD_of_other (hA : qtype ≠ kTypeA) (hAaaa : qtype ≠ kTypeAaaa) :
    (hostAnswer hosts domain qtype).getD [] = [] := by
  rw [hostAnswer]
  split
  · rfl
  · rw [if_neg (by simp [hA, hAaaa])]
    rfl

theorem apart_iff (own : OwnName) (domain : Bytes) (qtype : UInt16) (hown : own.answers domain) :
    (∀ hosts hosts' : LocalHosts, localAnswer own hosts domain qtype = localAnswer own hosts' domain qtype) ↔
      qtype ≠ kTypeA ∧ qtype ≠ kTypeAaaa := by
  obtain ⟨owned, howned⟩ := ownAnswer_isSome qtype hown
  constructor
  · intro hsame
    by_contra hasked
    have htype : qtype = kTypeA ∨ qtype = kTypeAaaa := by
      by_contra hother
      exact hasked (not_or.mp hother)
    -- an entry with one address of the family under the name looked up
    obtain ⟨address, haddress⟩ : ∃ address, ofType qtype address = true := by
      rcases htype with rfl | rfl
      · exact ⟨[], rfl⟩
      · exact ⟨[0x3A], rfl⟩
    have hboth := hsame noHosts (addLocalHost noHosts (lookupDomain domain) address)
    rw [localAnswer_of_own howned, localAnswer_of_own howned, hostAnswer_noHosts, hostAnswer_addLocalHost,
      if_pos htype] at hboth
    simp [noHosts, haddress] at hboth
  · rintro ⟨hA, hAaaa⟩ hosts hosts'
    rw [localAnswer_of_own howned, localAnswer_of_own howned, hostAnswer_getD_of_other hA hAaaa,
      hostAnswer_getD_of_other hA hAaaa]

theorem found_iff (own : OwnName) (domain : Bytes) (qtype : UInt16) (name : Bytes) :
    (∀ (hosts : LocalHosts) (ip : Bytes), AnsweredFrom own (addLocalHost hosts name ip) domain qtype ip) ↔
      name = lookupDomain domain := by
  constructor
  · intro hfound
    by_contra hother
    obtain ⟨listed, -, hlisted, -⟩ := hfound noHosts []
    have hentry : addLocalHost noHosts name [] (lookupDomain domain) = [] :=
      update_of_ne (Ne.symm hother) _ _
    rw [hostAnswer, hentry] at hlisted
    cases hlisted
  · rintro rfl hosts ip
    have hlisted := hostAnswer_addLocalHost hosts domain qtype ip
    by_cases htype : qtype = kTypeA ∨ qtype = kTypeAaaa
    · rw [if_pos htype] at hlisted
      refine ⟨_, _, hlisted, localAnswer_of_host hlisted, fun _ ↦ mem_append_right _, fun _ hip ↦ ?_⟩
      exact mem_filter.mpr ⟨mem_append_right _ (mem_singleton_self ip), hip⟩
    · rw [if_neg htype] at hlisted
      exact ⟨_, _, hlisted, localAnswer_of_host hlisted, fun _ ↦ mem_append_right _,
        fun hasked ↦ absurd hasked htype⟩

/-- The two hold exactly where the names and the type fit. -/
theorem names_hold_iff (own : OwnName) (domain : Bytes) (qtype : UInt16) (name : Bytes) :
    NamesHold own domain qtype name ↔ NamesFit own domain qtype name := by
  constructor
  · rintro ⟨hapart, hfound⟩
    exact ⟨fun hown ↦ (apart_iff own domain qtype hown).mp (hapart hown),
      fun hname ↦ (found_iff own domain qtype name).mp (hfound hname)⟩
  · rintro ⟨hapart, hfound⟩
    exact ⟨fun hown ↦ (apart_iff own domain qtype hown).mpr (hapart hown),
      fun hname ↦ (found_iff own domain qtype name).mpr (hfound hname)⟩

def sampleOwn : OwnName := ⟨true, ascii "esp", ascii "192.168.1.1", []⟩

/-- A stale entry for the device's own name is sent with its address. -/
theorem stale_entry_is_sent :
    ¬∀ (own : OwnName) (domain : Bytes) (qtype : UInt16) (name : Bytes), NamesHold own domain qtype name := by
  intro hold
  have hown : sampleOwn.answers (ascii "esp") = true := by decide
  have hsame := (hold sampleOwn (ascii "esp") kTypeA (ascii "esp")).apart hown noHosts
    (addLocalHost noHosts (ascii "esp") (ascii "10.0.0.9"))
  exact absurd hsame (by decide)

end DhcpServer.Dns.LocalNames

namespace DhcpServer.Dns.LocalNames

open Library List

open InternalCache (Cache Call Inet Node V4 V6 keyName kTypeA kTypeAaaa)
open Message (AnswerRecord Question askedEnd begun bigEndian16 bigEndian32 buildAnswer buildRecord
  buildRecords kFlagQr kFlagRa kFlagRd kHeaderBytes kLabelPointer kMaxMsgSize kQuestionTailBytes namedHeader
  parseQuery recordBytes)

/-! ## The records of a message -/

def recordOf (inet : Inet) (leftover : Buffer) (ttl : UInt32) (ip : Bytes) : AnswerRecord :=
  if ip.contains 0x3A then
    ⟨kTypeAaaa, ttl, ((inet.pton6 (cString ip)).map Vector.toList).getD (slice leftover 0 16)⟩
  else ⟨kTypeA, ttl, ((inet.pton4 (cString ip)).map Vector.toList).getD (slice leftover 0 4)⟩

/-- A record in a message, its name a pointer to the question. -/
def recordWire (cls : UInt16) (record : AnswerRecord) : Bytes :=
  [kLabelPointer, UInt8.ofNat kHeaderBytes] ++ bigEndian16 record.type ++ bigEndian16 cls ++
    bigEndian32 record.ttl ++ bigEndian16 (UInt16.ofNat record.rdata.length) ++ record.rdata

def written (inet : Inet) (leftover : Buffer) (bufSize : Nat) (ttl : UInt32) :
    Nat → List Bytes → List (Bytes × AnswerRecord)
  | _, [] => []
  | pos, ip :: ips =>
    if bufSize < pos + kHeaderBytes + kQuestionTailBytes then []
    else
      (ip, recordOf inet (fun i ↦ leftover (pos + i)) ttl ip) ::
        written inet leftover bufSize ttl (pos + recordBytes ip) ips

def Carries (question : Question) (message : Bytes) (records : List AnswerRecord) : Prop :=
  ∃ flags ancount, message = namedHeader flags ancount question ++
    (bigEndian16 question.type ++ (bigEndian16 question.cls ++ records.flatMap (recordWire question.cls)))

/-- Every record has the type asked for and an address of the source, and no record is made of a text that is
no address of the family. -/
structure RealAddresses (inet : Inet) (qtype : UInt16) (addresses : List Bytes)
    (records : List (Bytes × AnswerRecord)) : Prop where
  real : ∀ made ∈ records, made.2.type = qtype ∧ made.2.rdata ∈ addresses
  only : ∀ made ∈ records, (inet.pton qtype (cString made.1)).isSome

variable {inet : Inet} {leftover : Buffer} {bufSize pos : Nat} {ttl : UInt32} {qtype : UInt16}
  {question : Question} {ip : Bytes} {ips known : List Bytes}

theorem buildRecord_eq (inet : Inet) (leftover : Buffer) (cls : UInt16) (ttl : UInt32) (ip : Bytes) :
    buildRecord inet leftover cls ttl ip = recordWire cls (recordOf inet leftover ttl ip) := by
  unfold buildRecord recordOf
  dsimp only
  split_ifs with hcolon
  · have hlength :
        (((inet.pton6 (cString ip)).map Vector.toList).getD (slice leftover 0 16)).length = 16 := by
      cases inet.pton6 (cString ip) <;> simp [length_slice]
    rw [recordWire, hlength]
    rfl
  · have hlength :
        (((inet.pton4 (cString ip)).map Vector.toList).getD (slice leftover 0 4)).length = 4 := by
      cases inet.pton4 (cString ip) <;> simp [length_slice]
    rw [recordWire, hlength]
    rfl

theorem buildRecords_eq (inet : Inet) (leftover : Buffer) (bufSize : Nat) (cls : UInt16) (ttl : UInt32)
    (pos : Nat) (ips : List Bytes) :
    buildRecords inet leftover bufSize cls ttl pos ips =
      ((written inet leftover bufSize ttl pos ips).map Prod.snd).flatMap (recordWire cls) := by
  induction ips generalizing pos with
  | nil => rfl
  | cons ip ips ih =>
    rw [buildRecords, written]
    by_cases hfull : bufSize < pos + kHeaderBytes + kQuestionTailBytes
    · rw [if_pos hfull, if_pos hfull]
      rfl
    · rw [if_neg hfull, if_neg hfull]
      dsimp only
      rw [Message.length_buildRecord, ih, buildRecord_eq]
      rfl

theorem written_fst (inet : Inet) (leftover : Buffer) (bufSize : Nat) (ttl : UInt32) (pos : Nat)
    (ips : List Bytes) :
    (written inet leftover bufSize ttl pos ips).map Prod.fst = begun bufSize pos ips := by
  induction ips generalizing pos with
  | nil => rfl
  | cons ip ips ih =>
    rw [written, begun]
    split
    · rfl
    · rw [map_cons, ih]

theorem recordOf_of_mem_written {made : Bytes × AnswerRecord}
    (hmade : made ∈ written inet leftover bufSize ttl pos ips) :
    ∃ buffer, made.2 = recordOf inet buffer ttl made.1 := by
  induction ips generalizing pos with
  | nil => cases hmade
  | cons ip ips ih =>
    rw [written] at hmade
    split_ifs at hmade
    · cases hmade
    · rcases mem_cons.mp hmade with rfl | hlater
      · exact ⟨_, rfl⟩
      · exact ih hlater

theorem carries_buildAnswer (hroom : askedEnd question.domain ≤ bufSize) :
    Carries question (buildAnswer inet leftover bufSize question ips ttl)
      ((written inet leftover bufSize ttl (askedEnd question.domain) ips).map Prod.snd) := by
  have hanswer := Message.buildAnswer_eq inet leftover ips ttl hroom
  rw [← append_assoc, buildRecords_eq] at hanswer
  exact ⟨_, _, hanswer⟩

theorem recordOf_of_ofType (inet : Inet) (leftover : Buffer) (ttl : UInt32)
    (hqtype : qtype = kTypeA ∨ qtype = kTypeAaaa) (htype : ofType qtype ip) :
    (recordOf inet leftover ttl ip).type = qtype ∧ ∀ address, inet.pton qtype (cString ip) = some address →
        (recordOf inet leftover ttl ip).rdata = address := by
  have hne : kTypeAaaa ≠ kTypeA := by decide
  rcases hqtype with rfl | rfl
  · have hcolon : ip.contains 0x3A = false := by
      simpa [ofType, hne.symm] using htype
    rw [recordOf, hcolon, if_neg Bool.false_ne_true]
    refine ⟨rfl, fun address haddress ↦ ?_⟩
    have hread : (inet.pton4 (cString ip)).map Vector.toList = some address := by
      simpa [InternalCache.Inet.pton] using haddress
    rw [hread, Option.getD_some]
  · have hcolon : ip.contains 0x3A = true := by
      simpa [ofType] using htype
    rw [recordOf, if_pos hcolon]
    refine ⟨rfl, fun address haddress ↦ ?_⟩
    have hread : (inet.pton6 (cString ip)).map Vector.toList = some address := by
      simpa [InternalCache.Inet.pton, hne] using haddress
    rw [hread, Option.getD_some]

theorem ofType_of_recordOf (hqtype : qtype = kTypeA ∨ qtype = kTypeAaaa)
    (htype : (recordOf inet leftover ttl ip).type = qtype) : ofType qtype ip := by
  have hne : kTypeAaaa ≠ kTypeA := by decide
  unfold recordOf at htype
  split_ifs at htype with hcolon
  · obtain rfl : qtype = kTypeAaaa := htype.symm
    rw [ofType, if_pos rfl, hcolon]
  · obtain rfl : qtype = kTypeA := htype.symm
    rw [ofType, if_neg hne.symm]
    simpa using hcolon

/-- What the builder makes of a list is real exactly if each text that gets a record is of the family and
reads as an address of the source. -/
theorem realAddresses_iff (hqtype : qtype = kTypeA ∨ qtype = kTypeAaaa) (leftover : Buffer) (ttl : UInt32) :
    RealAddresses inet qtype known (written inet leftover bufSize ttl pos ips) ↔
      ∀ ip ∈ begun bufSize pos ips, ofType qtype ip ∧
        ∃ address ∈ known, inet.pton qtype (cString ip) = some address := by
  rw [← written_fst inet leftover bufSize ttl pos ips, forall_mem_map]
  constructor
  · rintro ⟨hreal, honly⟩ made hmade
    obtain ⟨buffer, hrecord⟩ := recordOf_of_mem_written hmade
    obtain ⟨htype, haddress⟩ := hreal made hmade
    rw [hrecord] at htype haddress
    have hfamily := ofType_of_recordOf hqtype htype
    obtain ⟨address, hread⟩ := Option.isSome_iff_exists.mp (honly made hmade)
    rw [(recordOf_of_ofType inet buffer ttl hqtype hfamily).2 address hread] at haddress
    exact ⟨hfamily, address, haddress, hread⟩
  · intro hreadable
    constructor
    · intro made hmade
      obtain ⟨buffer, hrecord⟩ := recordOf_of_mem_written hmade
      obtain ⟨hfamily, address, haddress, hread⟩ := hreadable made hmade
      obtain ⟨htype, hrdata⟩ := recordOf_of_ofType inet buffer ttl hqtype hfamily
      rw [hrecord]
      exact ⟨htype, (hrdata address hread).symm ▸ haddress⟩
    · intro made hmade
      obtain ⟨-, address, -, hread⟩ := hreadable made hmade
      exact Option.isSome_iff_exists.mpr ⟨address, hread⟩

/-! ## Where the addresses come from -/

/-- `inet_ntop` writes a text that `inet_pton` reads back, with a colon for IPv6 only. -/
structure Prints (inet : Inet) : Prop where
  text4 : ∀ address : V4, 0x3A ∉ inet.ntop4 address ∧ inet.pton4 (cString (inet.ntop4 address)) = some address
  text6 : ∀ address : V6, 0x3A ∈ inet.ntop6 address ∧ inet.pton6 (cString (inet.ntop6 address)) = some address

/-- What a query is answered from: the names of the device, the built-in cache after a run of calls, or the
reply of the external cache for a lookup. -/
inductive Origin
  | names (own : OwnName) (hosts : LocalHosts)
  | internalCache (own : OwnName) (hosts : LocalHosts) (cache : Cache)
  | externalCache (state : ForwardSlots.State) (request : ExternalCache.LookupRequest)
    (answers : List Bytes)

namespace Origin

def Answers (inet : Inet) (question : Question) (ips : List Bytes) : Origin → Prop
  | .names own hosts => localAnswer own hosts question.domain question.type = some ips
  | .internalCache own hosts cache =>
    localAnswer own hosts question.domain question.type = none ∧
      (∃ built calls, steps (Cache.step inet) (Cache.initial built) calls = some cache) ∧
      ∃ now waitUs cache' ttl,
        resolve inet own hosts cache question.domain question.type now waitUs = some (cache', some (ips, ttl))
  | .externalCache state request answers =>
    let found := state.cache.doLookupAndParse request answers
    let delivery : ExternalCache.Delivery := ⟨request, ExternalCache.lookupResult request found⟩
    ∃ opened ttl slot source, slot.question = question ∧
      ForwardSlots.Output.replied slot (.answer ips ttl) source ∈ (state.handleResult delivery opened).2

/-- The addresses of the family asked for that the source has. -/
def addresses (inet : Inet) (question : Question) : Origin → List Bytes
  | .names own hosts =>
    (own.ip4 :: own.ip6 :: hosts (lookupDomain question.domain)).filterMap fun text ↦
      inet.pton question.type (cString text)
  | .internalCache _ _ cache =>
    ((cache.arena.bind fun arena ↦ arena.recordOf (keyName (lookupDomain question.domain), question.type)).map
      Node.addresses).getD []
  | .externalCache _ _ answers =>
    answers.filterMap fun text ↦ inet.pton question.type (cString text)

/-- What the source has to keep to: every text that gets a record is of the family by its colon and reads as
an address; a text of the external cache as one that the reply lists. The built-in cache always does. -/
def Readable (inet : Inet) (question : Question) (ips : List Bytes) : Origin → Prop
  | .names _ _ => ∀ ip ∈ begun kMaxMsgSize (askedEnd question.domain) ips,
    ofType question.type ip = true ∧ (inet.pton question.type (cString ip)).isSome
  | .internalCache _ _ _ => True
  | .externalCache _ _ answers => ∀ ip ∈ begun kMaxMsgSize (askedEnd question.domain) ips,
    ofType question.type ip = true ∧ (inet.pton question.type (cString ip)).isSome ∧
      ∃ text ∈ answers, inet.pton question.type (cString text) = inet.pton question.type (cString ip)

end Origin

theorem mem_of_mem_begun (hip : ip ∈ begun bufSize pos ips) : ip ∈ ips := by
  induction ips generalizing pos with
  | nil => cases hip
  | cons first ips ih =>
    rw [begun] at hip
    split_ifs at hip
    · cases hip
    · rcases mem_cons.mp hip with rfl | hlater
      · exact mem_cons_self
      · exact mem_cons_of_mem _ (ih hlater)

theorem mem_of_localAnswer {own : OwnName} {hosts : LocalHosts} {domain : Bytes}
    (hanswer : localAnswer own hosts domain qtype = some ips) (hip : ip ∈ ips) :
    ip ∈ own.ip4 :: own.ip6 :: hosts (lookupDomain domain) := by
  have howned : ∀ owned, ownAnswer own domain qtype = some owned → ip ∈ owned →
      ip = own.ip4 ∨ ip = own.ip6 := by
    intro owned hown hmem
    unfold ownAnswer at hown
    split_ifs at hown <;> cases hown
    · exact .inl (mem_singleton.mp hmem)
    · exact .inr (mem_singleton.mp hmem)
    · cases hmem
  have hlisted : ∀ listed, hostAnswer hosts domain qtype = some listed → ip ∈ listed →
      ip ∈ hosts (lookupDomain domain) := by
    intro listed hhost hmem
    unfold hostAnswer at hhost
    cases hentry : hosts (lookupDomain domain) with
    | nil =>
      rw [hentry] at hhost
      cases hhost
    | cons first others =>
      rw [hentry] at hhost
      split_ifs at hhost <;> cases hhost
      · exact mem_of_mem_filter hmem
      · cases hmem
  cases hown : ownAnswer own domain qtype with
  | none =>
    cases hhost : hostAnswer hosts domain qtype with
    | none =>
      rw [localAnswer, hown, hhost] at hanswer
      cases hanswer
    | some listed =>
      rw [localAnswer_of_host hhost, hown] at hanswer
      cases hanswer
      exact mem_cons_of_mem _ (mem_cons_of_mem _ (hlisted listed hhost hip))
  | some owned =>
    rw [localAnswer_of_own hown] at hanswer
    cases hanswer
    rcases mem_append.mp hip with hmem | hmem
    · rcases howned owned hown hmem with rfl | rfl
      · exact mem_cons_self
      · exact mem_cons_of_mem _ mem_cons_self
    · cases hhost : hostAnswer hosts domain qtype with
      | none =>
        rw [hhost] at hmem
        cases hmem
      | some listed =>
        rw [hhost] at hmem
        exact mem_cons_of_mem _ (mem_cons_of_mem _ (hlisted listed hhost hmem))

theorem readable_of_mem_texts (hprints : Prints inet) {node : Node} (hip : ip ∈ node.texts inet) :
    ofType node.qtype ip ∧
      ∃ address ∈ node.addresses, inet.pton node.qtype (cString ip) = some address := by
  have hne : kTypeAaaa ≠ kTypeA := by decide
  unfold Node.texts at hip
  unfold Node.addresses Node.slots InternalCache.Inet.pton ofType
  split_ifs at hip with hA hAaaa
  · obtain ⟨address, haddress, rfl⟩ := mem_map.mp hip
    obtain ⟨hcolon, hread⟩ := hprints.text4 address
    rw [hA, if_neg hne.symm, if_pos rfl, if_pos rfl, if_pos rfl, hread, ← map_take]
    exact ⟨by simpa using hcolon, address.toList, mem_map_of_mem haddress, rfl⟩
  · obtain ⟨address, haddress, rfl⟩ := mem_map.mp hip
    obtain ⟨hcolon, hread⟩ := hprints.text6 address
    rw [hAaaa, if_pos rfl, if_neg hne, if_neg hne, if_neg hne, hread, ← map_take]
    exact ⟨by simpa using hcolon, address.toList, mem_map_of_mem haddress, rfl⟩
  · cases hip

theorem texts_of_lookup {arena arena' : InternalCache.Arena} {ignoreTtl : Bool} {domain : Bytes}
    {now : UInt32}
    {waitUs : Nat} (hwell : InternalCache.WellFormed arena)
    (hlookup : arena.lookup inet ignoreTtl domain qtype now waitUs = some (arena', some (ips, ttl))) :
    ∃ node : Node, node.qtype = qtype ∧ arena.recordOf (keyName domain, qtype) = some node.record ∧
      ips = node.texts inet := by
  by_cases hdomain : InternalCache.Unsearched domain
  · rw [InternalCache.lookup_unsearched hdomain] at hlookup
    cases hlookup
  · obtain ⟨same, result, hfound, hlooked⟩ := hwell.lookup hdomain inet ignoreTtl qtype now waitUs
    obtain ⟨rfl, rfl⟩ := Prod.mk.inj (Option.some.inj (hfound.symm.trans hlookup))
    cases hlooked with
    | @hit index hchained hkey =>
      refine ⟨arena.nodes index, congrArg Prod.snd hkey, ?_, rfl⟩
      rw [← hkey]
      exact hwell.recordOf_chained hchained

theorem readable_of_internalCache (hprints : Prints inet) {own : OwnName} {hosts : LocalHosts} {cache : Cache}
    (hanswers : (Origin.internalCache own hosts cache).Answers inet question ips) (hip : ip ∈ ips) :
    ofType question.type ip ∧
      ∃ address ∈ (Origin.internalCache own hosts cache).addresses inet question,
      inet.pton question.type (cString ip) = some address := by
  obtain ⟨hnone, ⟨built, calls, hcalls⟩, now, waitUs, cache', ttl, hresolve⟩ := hanswers
  unfold resolve at hresolve
  rw [hnone] at hresolve
  cases harena : cache.arena with
  | none =>
    rw [harena] at hresolve
    cases hresolve
  | some arena =>
    have hwell := (InternalCache.tidy_of_steps hcalls arena harena).wellFormed
    rw [harena] at hresolve
    split_ifs at hresolve with hasked
    swap
    · cases hresolve
    obtain ⟨⟨arena', found⟩, hlookup, hfound⟩ := Option.bind_eq_some_iff.mp hresolve
    cases hfound
    obtain ⟨node, hnode, hrecord, rfl⟩ := texts_of_lookup hwell hlookup
    have hreadable := readable_of_mem_texts hprints hip
    rw [hnode] at hreadable
    have haddresses : (Origin.internalCache own hosts cache).addresses inet question = node.addresses := by
      rw [Origin.addresses, harena, Option.bind_some, hrecord]
      rfl
    rw [haddresses]
    exact hreadable

/-- An answer has real addresses of the source, and nothing else, exactly if the source keeps to addresses. -/
theorem real_addresses_iff (hprints : Prints inet) {data : Bytes} (hparse : parseQuery data = some question)
    (hqtype : question.type = kTypeA ∨ question.type = kTypeAaaa) {origin : Origin}
    (hanswers : origin.Answers inet question ips) (leftover : Buffer) (ttl : UInt32) :
    Carries question (buildAnswer inet leftover kMaxMsgSize question ips ttl)
        ((written inet leftover kMaxMsgSize ttl (askedEnd question.domain) ips).map Prod.snd) ∧
      (RealAddresses inet question.type (origin.addresses inet question)
          (written inet leftover kMaxMsgSize ttl (askedEnd question.domain) ips) ↔
        origin.Readable inet question ips) := by
  refine ⟨carries_buildAnswer (Message.askedEnd_le hparse), (realAddresses_iff hqtype leftover ttl).trans ?_⟩
  cases origin with
  | names own hosts =>
    refine forall₂_congr fun ip hip ↦ and_congr_right fun _ ↦ ?_
    have hlisted := mem_of_localAnswer hanswers (mem_of_mem_begun hip)
    constructor
    · rintro ⟨address, -, hread⟩
      exact Option.isSome_iff_exists.mpr ⟨address, hread⟩
    · intro hread
      obtain ⟨address, hread⟩ := Option.isSome_iff_exists.mp hread
      exact ⟨address, List.mem_filterMap.mpr ⟨ip, hlisted, hread⟩, hread⟩
  | internalCache own hosts cache =>
    exact iff_of_true (fun ip hip ↦ readable_of_internalCache hprints hanswers (mem_of_mem_begun hip)) trivial
  | externalCache state request answers =>
    refine forall₂_congr fun ip _ ↦ and_congr_right fun _ ↦ ?_
    constructor
    · rintro ⟨address, haddress, hread⟩
      obtain ⟨text, htext, hlisted⟩ := List.mem_filterMap.mp haddress
      exact ⟨Option.isSome_iff_exists.mpr ⟨address, hread⟩, text, htext, hlisted.trans hread.symm⟩
    · rintro ⟨hread, text, htext, hsame⟩
      obtain ⟨address, hread⟩ := Option.isSome_iff_exists.mp hread
      exact ⟨address, List.mem_filterMap.mpr ⟨text, htext, hsame.trans hread⟩, hread⟩

/-- As `quadInet`, with a colon before the letters of an IPv6 address. -/
def colonInet : Inet where
  pton4 := ForwardSlots.quadInet.pton4
  ntop4 := ForwardSlots.quadInet.ntop4
  pton6 text := if text.head? = some 0x3A then ForwardSlots.quadInet.pton6 text.tail else none
  ntop6 address := 0x3A :: ForwardSlots.quadInet.ntop6 address

theorem colon_not_mem_decimal (byte : UInt8) : 0x3A ∉ Message.decimal byte := by
  have hall : ∀ number < 256, (0x3A : UInt8) ∉ Message.decimal (UInt8.ofNat number) := by
    decide +kernel
  have hbyte := hall byte.toNat byte.toNat_lt
  rwa [UInt8.ofNat_toNat] at hbyte

theorem colon_not_mem_dottedQuad (bytes : Bytes) : 0x3A ∉ Message.dottedQuad bytes := by
  unfold Message.dottedQuad
  induction bytes with
  | nil => exact not_mem_nil
  | cons byte bytes ih =>
    cases bytes with
    | nil =>
      rw [map_singleton, intercalate_singleton]
      exact colon_not_mem_decimal byte
    | cons next bytes =>
      rw [map_cons, map_cons, intercalate_cons_cons]
      intro hcolon
      rcases mem_append.mp hcolon with hfirst | hrest
      · rcases mem_append.mp hfirst with hdecimal | hdot
        · exact colon_not_mem_decimal byte hdecimal
        · exact absurd (mem_singleton.mp hdot) (by decide)
      · exact ih hrest

theorem prints_colonInet : Prints colonInet := by
  constructor
  · intro address
    obtain ⟨hread, hcString⟩ := ForwardSlots.dottedQuad_spec address
    refine ⟨colon_not_mem_dottedQuad address.toList, ?_⟩
    have htext : cString (colonInet.ntop4 address) = Message.dottedQuad address.toList := hcString
    rw [htext]
    exact hread
  · intro address
    refine ⟨mem_cons_self, ?_⟩
    have htext : cString (colonInet.ntop6 address) = 0x3A :: address.toList.flatMap InternalCache.letters :=
      cString_eq_self (not_mem_cons_of_ne_of_not_mem (by decide) (CacheFile.zero_not_mem_letters _))
    have hpton (letters : Bytes) :
        colonInet.pton6 (0x3A :: letters) = ForwardSlots.quadInet.pton6 letters := by
      simp only [colonInet, List.head?_cons, tail_cons, if_true]
    rw [htext, hpton, ForwardSlots.pton6_letters]

def namedDevice : OwnName := ⟨true, Message.plainLabel, ascii "10.0.0.1", []⟩

theorem real_addresses_namedDevice : RealAddresses colonInet kTypeA
      ((Origin.names namedDevice noHosts).addresses colonInet ⟨Message.plainLabel, kTypeA, 1, 0x1234⟩)
      (written colonInet (fun _ ↦ 0) kMaxMsgSize 300 (askedEnd Message.plainLabel) [ascii "10.0.0.1"]) := by
  have hanswers : (Origin.names namedDevice noHosts).Answers colonInet
      ⟨Message.plainLabel, kTypeA, 1, 0x1234⟩ [ascii "10.0.0.1"] := by
    show localAnswer _ _ _ _ = _
    decide
  have hiff := real_addresses_iff prints_colonInet Message.parseQuery_plainLabel (.inl rfl) hanswers
    (fun _ ↦ 0) 300
  refine hiff.2.mpr fun ip hip ↦ ?_
  rw [List.mem_singleton.mp (mem_of_mem_begun hip)]
  exact ⟨by decide, by decide +kernel⟩

/-- An entry of the Local Hosts with a text that is no address. -/
theorem text_becomes_record :
    ¬∀ (inet : Inet) (data : Bytes) (question : Question) (origin : Origin) (ips : List Bytes)
      (leftover : Buffer) (ttl : UInt32), Prints inet → parseQuery data = some question →
      question.type = kTypeA ∨ question.type = kTypeAaaa → origin.Answers inet question ips →
      RealAddresses inet question.type (origin.addresses inet question)
        (written inet leftover kMaxMsgSize ttl (askedEnd question.domain) ips) := by
  intro hreal
  have hanswers : (Origin.names ⟨false, [], [], []⟩
      (addLocalHost noHosts Message.plainLabel (ascii "ten"))).Answers
      colonInet ⟨Message.plainLabel, kTypeA, 1, 0x1234⟩ [ascii "ten"] := by
    show localAnswer _ _ _ _ = _
    decide
  have honly := (hreal colonInet _ _ _ _ (fun _ ↦ 0) 300 prints_colonInet
    Message.parseQuery_plainLabel (.inl rfl) hanswers).only
  have hrecord := honly (ascii "ten", recordOf colonInet (fun _ ↦ 0) 300 (ascii "ten")) List.mem_cons_self
  exact absurd hrecord (by decide +kernel)

end DhcpServer.Dns.LocalNames
