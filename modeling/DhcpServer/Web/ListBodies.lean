import DhcpServer.Core.StoredLists
import DhcpServer.Web.JsonWriter

/-!
# The lists in the answers of the REST API

Three bodies are put together from texts between quotes: the static bindings, the allowed computers
and what is reported of a DNS query. None of these texts is escaped, as `addJsonString` does with the
others. So a body is the document of its entries exactly if no text has anything to escape.

The two lists are sent as C strings.
-/

namespace DhcpServer.Web

open Library Library.JsonReading List
open Core.Config (Blobs StaticBinding getStaticBindings)
open Dhcp.AllowedList (kMaxEntries)
open Dhcp (AllowedComputer)

namespace RestApi

def bindingJson (binding : StaticBinding) : Bytes :=
  ascii "\x7b\"mac\":\"" ++ binding.mac ++ ascii "\"," ++
  (ascii "\"ip\":\"" ++ binding.ip ++ ascii "\",") ++
  (ascii "\"name\":\"" ++ binding.name ++ ascii "\",") ++
  (ascii "\"gateway\":\"" ++ binding.gateway ++ ascii "\",") ++
  (ascii "\"use_gateway\":" ++ (if binding.useGateway then ascii "true" else ascii "false") ++ ascii ",") ++
  (ascii "\"enabled\":" ++ (if binding.enabled then ascii "true" else ascii "false") ++ ascii ",") ++
  (ascii "\"use_dns\":" ++ (if binding.useDns then ascii "true" else ascii "false") ++ ascii "\x7d")

def handleGetStaticBindings (blobs : Blobs) : Bytes :=
  cString (ascii "\x7b\"bindings\":[" ++ [comma].intercalate ((getStaticBindings blobs).map bindingJson) ++
    ascii "]\x7d")

def kMaxAllowedBytes : Nat := 1024

def allowedJson (computer : AllowedComputer) : Bytes :=
  ascii "\x7b\"mac\":\"" ++ computer.mac ++ ascii "\"," ++
  (ascii "\"name\":\"" ++ computer.name ++ ascii "\",") ++
  (ascii "\"enabled\":" ++ (if computer.enabled then ascii "true" else ascii "false") ++ ascii "\x7d")

def handleGetAllowedComputers (allowOnly available : Bool) (text : Bytes) : Bytes :=
  let list := Dhcp.AllowedList.parse text
  let json := ascii "\x7b"
  let json := Json.addJsonBool json (ascii "allow_only") allowOnly true
  let json := Json.addJsonBool json (ascii "available") available false
  let json := Json.addJsonInt json (ascii "count") list.length false
  let json := Json.addJsonInt json (ascii "max_entries") kMaxEntries false
  let json := Json.addJsonInt json (ascii "used_bytes") text.length false
  let json := Json.addJsonInt json (ascii "max_bytes") kMaxAllowedBytes false
  cString (json ++ ascii ",\"list\":[" ++ [comma].intercalate (list.map allowedJson) ++ ascii "]\x7d")

end RestApi

/-- What is kept of a query; the texts are arrays that a zero byte ends. -/
structure RestLogRecord where
  type : UInt16
  outcome : UInt8
  source : UInt8
  domain : Bytes
  client : Bytes
  mac : Bytes
  answer : Bytes

namespace DnsLogger

def answered : UInt8 := 0

def sourceName (source : UInt8) : Bytes :=
  if source = 0 then ascii "local" else if source = 1 then ascii "cache" else ascii "forward"

def buildRestJson (rec : RestLogRecord) : Bytes :=
  ascii "\x7b\"domain\":\"" ++ cString rec.domain ++ ascii "\",\"type\":" ++ Json.intText rec.type.toNat ++
    ascii ",\"client_ip\":\"" ++ cString rec.client ++ ascii "\",\"client_mac\":\"" ++ cString rec.mac ++
    ascii "\",\"source\":\"" ++ sourceName rec.source ++ ascii "\",\"resolved\":" ++
    (if rec.outcome = answered then ascii "true" else ascii "false") ++
    ascii ",\"answer\":\"" ++ cString rec.answer ++ ascii "\"\x7d"

end DnsLogger

structure Field where
  key : Bytes
  written : Bytes
  document : Document
  condition : Prop

namespace Field

def text (key : String) (content : Bytes) : Field :=
  ⟨ascii key, quote :: (content ++ [quote]), .text content, Clean content⟩

def flag (key : String) (on : Bool) : Field :=
  ⟨ascii key, if on then ascii "true" else ascii "false", .flag on, True⟩

def count (key : String) (value : Nat) : Field :=
  ⟨ascii key, Json.intText value, .number (Json.intText value), True⟩

/-- The member is read as it is meant exactly under its condition. -/
def Sound (field : Field) : Prop := Clean field.key ∧ ReadsAs field.written field.document field.condition

def IsKey (key : String) : Prop :=
  ∀ byte ∈ ascii key, 0x20 ≤ byte ∧ byte ≠ quote ∧ byte ≠ backslash ∧ byte < 0x80

instance (key : String) : Decidable (IsKey key) := List.decidableBAll _ (ascii key)

variable {key : String}

theorem clean_of_isKey (hkey : IsKey key) : Clean (ascii key) := by
  refine clean_of_ascii (fun byte hbyte ↦ ?_) fun byte hbyte ↦ (hkey byte hbyte).2.2.2
  obtain ⟨hprinted, hquote, hslash, -⟩ := hkey byte hbyte
  exact ⟨hprinted, hquote, hslash⟩

theorem sound_text (hkey : IsKey key) (content : Bytes) : (text key content).Sound :=
  ⟨clean_of_isKey hkey, readsAs_text content⟩

theorem sound_flag (hkey : IsKey key) (on : Bool) : (flag key on).Sound :=
  ⟨clean_of_isKey hkey, readsAs_flag on⟩

theorem isDigit_digitByte (digit : Fin 10) : isDigit (JsonText.digitByte digit) := by
  revert digit
  decide

theorem sound_count (hkey : IsKey key) (value : Nat) : (count key value).Sound := by
  refine ⟨clean_of_isKey hkey, ?_⟩
  obtain ⟨leading, digits, hdigits, hzero⟩ : ∃ leading digits,
      Json.decimalDigits value = leading :: digits ∧ (leading = 0 → digits = []) := by
    induction value using Json.decimalDigits.induct with
    | case1 value hsmall =>
      rw [Json.decimalDigits, if_pos hsmall]
      exact ⟨_, [], rfl, fun _ ↦ rfl⟩
    | case2 value hlarge ih =>
      obtain ⟨leading, digits, hdigits, hzero⟩ := ih
      rw [Json.decimalDigits, if_neg hlarge, hdigits]
      refine ⟨leading, _, rfl, fun hleading ↦ ?_⟩
      obtain ⟨first, others, hothers, hvalue⟩ := Json.exists_decimalDigits (value / 10)
      rw [hdigits, hzero hleading, hleading] at hothers
      obtain ⟨rfl, rfl⟩ := cons.inj hothers
      simp [JsonText.digitsNumber] at hvalue
      omega
  have htext : Json.intText (value : Int) =
      JsonText.digitByte leading :: digits.map JsonText.digitByte := by
    rw [Json.intText, if_neg (by omega), Int.natAbs_natCast, hdigits, map_cons]
  have hleading : ∀ digit : Fin 10, JsonText.digitByte digit = 0x30 → digit = 0 := by decide
  rw [count, htext]
  refine readsAs_number (fun byte hbyte ↦ ?_) fun hbyte ↦ by rw [hzero (hleading leading hbyte)]; rfl
  rcases mem_cons.mp hbyte with rfl | hmem
  · exact isDigit_digitByte leading
  · obtain ⟨digit, -, rfl⟩ := mem_map.mp hmem
    exact isDigit_digitByte digit

def list {ε : Type} (key : String) (json : ε → Bytes) (document : ε → Document) (holds : ε → Prop)
    (entries : List ε) : Field :=
  ⟨ascii key, opensArray :: (JsonReading.joined json entries ++ [closesArray]), .array (entries.map document),
    ∀ entry ∈ entries, holds entry⟩

theorem sound_list {ε : Type} (hkey : IsKey key) {json : ε → Bytes}
    {document : ε → Document} {holds : ε → Prop}
    (hentries : ∀ entry, ReadsAs (json entry) (document entry) (holds entry)) (entries : List ε) :
    (list key json document holds entries).Sound :=
  ⟨clean_of_isKey hkey, readsAs_array fun entry _ ↦ hentries entry⟩

def objectDocument (fields : List Field) : Document :=
  .object (fields.map fun field ↦ (field.key, field.document))

theorem readsAs_fields {fields : List Field} (hfields : ∀ field ∈ fields, field.Sound) :
    ReadsAs (objectText Field.key Field.written fields) (objectDocument fields)
      (∀ field ∈ fields, field.condition) :=
  readsAs_object (fun field hfield ↦ (hfields field hfield).1) fun field hfield ↦ (hfields field hfield).2

end Field

namespace RestApi

def bindingFields (binding : StaticBinding) : List Field :=
  [.text "mac" binding.mac, .text "ip" binding.ip, .text "name" binding.name,
    .text "gateway" binding.gateway, .flag "use_gateway" binding.useGateway,
    .flag "enabled" binding.enabled, .flag "use_dns" binding.useDns]

def bindingDocument (binding : StaticBinding) : Document :=
  .object [(ascii "mac", .text binding.mac), (ascii "ip", .text binding.ip),
    (ascii "name", .text binding.name), (ascii "gateway", .text binding.gateway),
    (ascii "use_gateway", .flag binding.useGateway), (ascii "enabled", .flag binding.enabled),
    (ascii "use_dns", .flag binding.useDns)]

/-- The entries in their order, each with all its fields. -/
def bindingsDocument (bindings : List StaticBinding) : Document :=
  .object [(ascii "bindings", .array (bindings.map bindingDocument))]

def CleanBinding (binding : StaticBinding) : Prop :=
  Clean binding.mac ∧ Clean binding.ip ∧ Clean binding.name ∧ Clean binding.gateway

theorem bindingJson_eq (binding : StaticBinding) :
    bindingJson binding = objectText Field.key Field.written (bindingFields binding) := by
  simp [bindingJson, objectText, bindingFields, Field.text, Field.flag, JsonReading.joined, memberText, ascii,
    List.intercalate, opensObject, closesObject, quote, colon, comma]

theorem readsAs_binding (binding : StaticBinding) :
    ReadsAs (bindingJson binding) (bindingDocument binding) (CleanBinding binding) := by
  have hfields : ∀ field ∈ bindingFields binding, field.Sound := by
    simp only [bindingFields, forall_mem_cons]
    exact ⟨Field.sound_text (by decide) _, Field.sound_text (by decide) _,
      Field.sound_text (by decide) _, Field.sound_text (by decide) _, Field.sound_flag (by decide) _,
      Field.sound_flag (by decide) _, Field.sound_flag (by decide) _, by simp⟩
  rw [bindingJson_eq]
  refine (Field.readsAs_fields hfields).of_iff ?_
  simp [bindingFields, Field.text, Field.flag, CleanBinding]

/-- The answer is the document of its entries exactly if no text of them has anything to escape. -/
theorem parse_handleGetStaticBindings_iff (blobs : Blobs) :
    parse (handleGetStaticBindings blobs) = some (bindingsDocument (getStaticBindings blobs)) ↔
      ∀ binding ∈ getStaticBindings blobs, CleanBinding binding := by
  have hfields : ∀ field ∈ [Field.list "bindings" bindingJson bindingDocument CleanBinding
      (getStaticBindings blobs)], field.Sound :=
    forall_mem_singleton.mpr (Field.sound_list (by decide) readsAs_binding _)
  have hbody : handleGetStaticBindings blobs = cString (objectText Field.key Field.written
      [Field.list "bindings" bindingJson bindingDocument CleanBinding (getStaticBindings blobs)]) := by
    simp [handleGetStaticBindings, objectText, JsonReading.joined, memberText, Field.list, ascii,
      opensObject, closesObject, quote, colon, opensArray, closesArray]
  rw [hbody]
  refine (Field.readsAs_fields hfields).parse_cString_iff.trans ?_
  simp [Field.list]

def allowedFields (computer : AllowedComputer) : List Field :=
  [.text "mac" computer.mac, .text "name" computer.name, .flag "enabled" computer.enabled]

def computerDocument (computer : AllowedComputer) : Document :=
  .object [(ascii "mac", .text computer.mac), (ascii "name", .text computer.name),
    (ascii "enabled", .flag computer.enabled)]

def allowedDocument (allowOnly available : Bool) (text : Bytes) : Document :=
  .object [(ascii "allow_only", .flag allowOnly), (ascii "available", .flag available),
    (ascii "count", .number (Json.intText (Dhcp.AllowedList.parse text).length)),
    (ascii "max_entries", .number (Json.intText kMaxEntries)),
    (ascii "used_bytes", .number (Json.intText text.length)),
    (ascii "max_bytes", .number (Json.intText kMaxAllowedBytes)),
    (ascii "list", .array ((Dhcp.AllowedList.parse text).map computerDocument))]

theorem allowedJson_eq (computer : AllowedComputer) :
    allowedJson computer = objectText Field.key Field.written (allowedFields computer) := by
  simp [allowedJson, objectText, allowedFields, Field.text, Field.flag, JsonReading.joined, memberText, ascii,
    List.intercalate, opensObject, closesObject, quote, colon, comma]

theorem readsAs_allowed (computer : AllowedComputer) :
    ReadsAs (allowedJson computer) (computerDocument computer)
      (Clean computer.mac ∧ Clean computer.name) := by
  have hfields : ∀ field ∈ allowedFields computer, field.Sound := by
    simp only [allowedFields, forall_mem_cons]
    exact ⟨Field.sound_text (by decide) _, Field.sound_text (by decide) _,
      Field.sound_flag (by decide) _, by simp⟩
  rw [allowedJson_eq]
  refine (Field.readsAs_fields hfields).of_iff ?_
  simp [allowedFields, Field.text, Field.flag]

theorem plain_of_isMacByte {byte : UInt8} (hbyte : Dhcp.AllowedList.isMacByte byte) :
    0x20 ≤ byte ∧ byte ≠ quote ∧ byte ≠ backslash ∧ byte < 0x80 := by
  have hne (mark : UInt8) (hmark : Dhcp.AllowedList.isMacByte mark = false) : byte ≠ mark := by
    rintro rfl
    rw [hbyte] at hmark
    cases hmark
  have hrange : 0x30 ≤ byte.toNat ∧ byte.toNat ≤ 0x66 := by
    simp only [Dhcp.AllowedList.isMacByte, Dhcp.AllowedList.hexNibble, UInt8.le_iff_toNat_le] at hbyte
    rcases Bool.or_eq_true_iff.mp hbyte with hcolon | hnibble
    · rw [of_decide_eq_true hcolon]
      decide
    · split_ifs at hnibble with hdigit hsmall hlarge
      · exact ⟨hdigit.1, hdigit.2.trans (by decide)⟩
      · exact ⟨le_trans (by decide) hsmall.1, hsmall.2⟩
      · exact ⟨le_trans (by decide) hlarge.1, hlarge.2.trans (by decide)⟩
      · cases hnibble
  refine ⟨?_, hne quote (by decide), hne backslash (by decide), ?_⟩
  · exact UInt8.le_iff_toNat_le.mpr (le_trans (by decide) hrange.1)
  · exact UInt8.lt_iff_toNat_lt.mpr (lt_of_le_of_lt hrange.2 (by decide))

theorem clean_formatMac (mac : Dhcp.Mac) : Clean (Dhcp.AllowedList.formatMac mac) := by
  have hbytes (byte : UInt8) (hbyte : byte ∈ Dhcp.AllowedList.formatMac mac) :=
    plain_of_isMacByte (Dhcp.AllowedList.isMacByte_of_mem hbyte)
  refine clean_of_ascii (fun byte hbyte ↦ ?_) fun byte hbyte ↦ (hbytes byte hbyte).2.2.2
  obtain ⟨hprinted, hquote, hslash, -⟩ := hbytes byte hbyte
  exact ⟨hprinted, hquote, hslash⟩

theorem parse_handleGetAllowedComputers_iff (allowOnly available : Bool) (text : Bytes) :
    parse (handleGetAllowedComputers allowOnly available text) =
        some (allowedDocument allowOnly available text) ↔
      ∀ computer ∈ Dhcp.AllowedList.parse text, Clean computer.name := by
  let fields : List Field := [.flag "allow_only" allowOnly, .flag "available" available,
    .count "count" (Dhcp.AllowedList.parse text).length, .count "max_entries" kMaxEntries,
    .count "used_bytes" text.length, .count "max_bytes" kMaxAllowedBytes,
    .list "list" allowedJson computerDocument
      (fun computer ↦ Clean computer.mac ∧ Clean computer.name) (Dhcp.AllowedList.parse text)]
  have hfields : ∀ field ∈ fields, field.Sound := by
    simp only [fields, forall_mem_cons]
    exact ⟨Field.sound_flag (by decide) _, Field.sound_flag (by decide) _,
      Field.sound_count (by decide) _, Field.sound_count (by decide) _,
      Field.sound_count (by decide) _, Field.sound_count (by decide) _,
      Field.sound_list (by decide) readsAs_allowed _, by simp⟩
  have hbody : handleGetAllowedComputers allowOnly available text =
      cString (objectText Field.key Field.written fields) := by
    simp [handleGetAllowedComputers, fields, objectText, JsonReading.joined, memberText, Field.list, Field.flag,
      Field.count, Json.addJsonBool, Json.addJsonInt, Json.comma, Json.needle, Json.quote, Json.colon,
      ascii, List.intercalate, comma, opensObject, closesObject, quote, colon, opensArray, closesArray]
  have hmac : ∀ computer ∈ Dhcp.AllowedList.parse text, Clean computer.mac := by
    intro computer hcomputer
    obtain ⟨mac, hmac⟩ := Dhcp.AllowedList.exists_mac_of_mem_parse hcomputer
    rw [hmac]
    exact clean_formatMac mac
  rw [hbody]
  refine (Field.readsAs_fields hfields).parse_cString_iff.trans ?_
  simp only [fields, forall_mem_cons, Field.flag, Field.count, Field.list, true_and,
    not_mem_nil, false_implies, implies_true, and_true]
  exact forall₂_congr fun computer hcomputer ↦ and_iff_right (hmac computer hcomputer)

end RestApi

namespace DnsLogger

def recordFields (rec : RestLogRecord) : List Field :=
  [.text "domain" (cString rec.domain), .count "type" rec.type.toNat,
    .text "client_ip" (cString rec.client), .text "client_mac" (cString rec.mac),
    .text "source" (sourceName rec.source), .flag "resolved" (rec.outcome = answered),
    .text "answer" (cString rec.answer)]

def recordDocument (rec : RestLogRecord) : Document :=
  .object [(ascii "domain", .text (cString rec.domain)),
    (ascii "type", .number (Json.intText rec.type.toNat)),
    (ascii "client_ip", .text (cString rec.client)), (ascii "client_mac", .text (cString rec.mac)),
    (ascii "source", .text (sourceName rec.source)), (ascii "resolved", .flag (rec.outcome = answered)),
    (ascii "answer", .text (cString rec.answer))]

theorem buildRestJson_eq (rec : RestLogRecord) :
    buildRestJson rec = objectText Field.key Field.written (recordFields rec) := by
  simp [buildRestJson, objectText, recordFields, Field.text, Field.flag, Field.count, JsonReading.joined,
    memberText,
    ascii, List.intercalate, opensObject, closesObject, quote, colon, comma]

theorem clean_sourceName (source : UInt8) : Clean (sourceName source) := by
  rw [sourceName]
  split_ifs
  all_goals exact Field.clean_of_isKey (by decide)

theorem parse_buildRestJson_iff (rec : RestLogRecord) :
    parse (buildRestJson rec) = some (recordDocument rec) ↔
      Clean (cString rec.domain) ∧ Clean (cString rec.client) ∧ Clean (cString rec.mac) ∧
        Clean (cString rec.answer) := by
  have hfields : ∀ field ∈ recordFields rec, field.Sound := by
    simp only [recordFields, forall_mem_cons]
    exact ⟨Field.sound_text (by decide) _, Field.sound_count (by decide) _,
      Field.sound_text (by decide) _, Field.sound_text (by decide) _, Field.sound_text (by decide) _,
      Field.sound_flag (by decide) _, Field.sound_text (by decide) _, by simp⟩
  rw [buildRestJson_eq, show recordDocument rec = Field.objectDocument (recordFields rec) from rfl,
    (Field.readsAs_fields hfields).parse_iff]
  simp [recordFields, Field.text, Field.flag, Field.count, clean_sourceName]

end DnsLogger

/-- A body is the document of the stored entries exactly if no text of them has a quote, a backslash
or a control byte and every text is UTF-8. -/
theorem listBodies_iff (blobs : Blobs) (allowOnly available : Bool) (text : Bytes) (rec : RestLogRecord) :
    (parse (RestApi.handleGetStaticBindings blobs) =
        some (RestApi.bindingsDocument (getStaticBindings blobs)) ↔
      ∀ binding ∈ getStaticBindings blobs, Clean binding.mac ∧ Clean binding.ip ∧
        Clean binding.name ∧ Clean binding.gateway) ∧
    (parse (RestApi.handleGetAllowedComputers allowOnly available text) =
        some (RestApi.allowedDocument allowOnly available text) ↔
      ∀ computer ∈ Dhcp.AllowedList.parse text, Clean computer.name) ∧
    (parse (DnsLogger.buildRestJson rec) = some (DnsLogger.recordDocument rec) ↔
      Clean (cString rec.domain) ∧ Clean (cString rec.client) ∧ Clean (cString rec.mac) ∧
        Clean (cString rec.answer)) :=
  ⟨RestApi.parse_handleGetStaticBindings_iff blobs,
    RestApi.parse_handleGetAllowedComputers_iff allowOnly available text,
    DnsLogger.parse_buildRestJson_iff rec⟩

/-- A store with one binding, whose name has a quote in it. -/
def quotedName : Blobs :=
  (Core.Config.setStaticBindings (fun _ ↦ none)
    [{ mac := ascii "24:0a:c4:01:23:45", ip := ascii "192.168.4.20", name := ascii "kids\"tablet" }]).1

theorem quotedName_breaks_body : ¬ ∀ blobs, parse (RestApi.handleGetStaticBindings blobs) =
      some (RestApi.bindingsDocument (getStaticBindings blobs)) := by
  intro hclaim
  have hread : getStaticBindings quotedName = [{
      mac := ascii "24:0a:c4:01:23:45"
      ip := ascii "192.168.4.20"
      name := ascii "kids\"tablet" }] := by
    decide
  have hclean := (RestApi.parse_handleGetStaticBindings_iff quotedName).mp (hclaim quotedName)
  rw [hread, forall_mem_singleton] at hclean
  exact ((hclean.2.2.1).1 quote (by decide)).2.1 rfl

end DhcpServer.Web
