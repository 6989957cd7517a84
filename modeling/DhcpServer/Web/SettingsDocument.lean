import DhcpServer.Web.JsonTokens
import DhcpServer.Web.SettingsImport

/-!
# What a settings document says, and what the import reads of it

A settings document is an object with an object for each section. What it says of a section is what
stands inside the section's own object: a field gets the value of its key there, and a field whose
key is absent keeps the value it has. `ownSection` is this reading.

The import goes through the text. It takes the first brace after the first place of a quoted section
name, and of the text from there to the end of the document the first colon after the first place of
a quoted key, so a key that is absent from its section is found in a later one. A section is in place
when every search ends at the section's own brace and colons, or ends nowhere if what it looks for is
absent. A document whose sections are in place is read as it is meant.
-/

namespace DhcpServer.Web.SettingsImport

open Library JsonText DhcpServer.Core Json Option

inductive Entry
  | object (fields : Object Token)
  /-- A list without white space between its entries. -/
  | array (items : List (Object Token))
  | token (value : Token)

def Entry.written : Entry → Bytes → Bytes
  | object fields, rest => fields.written Token.written rest
  | array items, rest => arrayWritten (Object.written Token.written) items rest
  | token value, rest => value.written rest

structure Document where
  lead : Spaces
  entries : Object Entry
  trail : Spaces

namespace Document

def text (document : Document) : Bytes :=
  document.lead.val ++ document.entries.written Entry.written document.trail.val

def object? (document : Document) (name : Bytes) : Option (Object Token) :=
  match (document.entries.member? name).map Member.value with
  | some (.object fields) => some fields
  | _ => none

/-- The section's own object, and what follows it in the text. -/
def place? (document : Document) (name : Bytes) : Option (Object Token × Bytes) :=
  match document.entries.locate Entry.written name document.trail.val with
  | none => none
  | some (member, after) =>
    match member.value with
    | .object fields => some (fields, member.trail.val ++ after)
    | _ => none

theorem map_place (document : Document) (name : Bytes) :
    (document.place? name).map Prod.fst = document.object? name := by
  rw [place?, object?, ← Object.map_locate Entry.written _ _ document.trail.val]
  cases document.entries.locate Entry.written name document.trail.val with
  | none => rfl
  | some located => cases hvalue : located.1.value <;> simp [hvalue]

end Document

def ownReading (fields : Object Token) (name : Bytes) : Reading :=
  match (fields.member? name).map Member.value with
  | none => ⟨[], id, id⟩
  | some value => ⟨value.toText, fun _ ↦ value.isOn, fun _ ↦ value.toInt⟩

def ownField (env : Environment) (fields : Object Token) (current : Settings) (field : Field) : Setting :=
  if (fields.member? field.name).isSome then
    field.rule.apply env (ownReading fields) current field.name
  else current field.name

def ownSection (env : Environment) (document : Document) (part : Section) (current : Settings) : Settings :=
  match document.object? part.name with
  | none => current
  | some fields => fun key ↦
    match part.fields.find? fun field ↦ field.name = key with
    | some field => ownField env fields current field
    | none => current key

/-- Where the document is accepted, the import gives every section what the document says of it. -/
def ReadsOwn (env : Environment) (document : Document) (device : Device) : Prop :=
  ∀ imported, importSettings env document.text device = some imported →
    ∀ part, imported.settings part = ownSection env document part (device.settings part)

/-- A value of the field's type, in a form the helpers read. -/
def Rule.fits (rule : Rule) (member : Member Token) : Bool :=
  match rule.kind, member.value with
  | .flag, .flag _ => onlyBlanks member.afterColon
  | .number, .number _ _ _ => isInt32 member.value.toInt
  | .text, .text pieces => onlyBlanks member.afterColon && pieces.all fun piece ↦ !piece.isUnicode
  | _, _ => false

/-- A rule that is applied without its key leaves the value as it is. Three kinds of text are
assigned whatever is found, and a number is brought into its range. -/
def Rule.keeps (read : Bytes → Reading) (current : Settings) (name : Bytes) : Rule → Bool
  | textSet | timezone => (current name).toText.isEmpty
  | leaseEntries =>
    (current name).toInt = 0 ||
      (kMinLeaseEntries ≤ (current name).toInt && (current name).toInt ≤ kMaxLeaseEntries)
  | clamped low high => low ≤ (current name).toInt && (current name).toInt ≤ high
  | period => (AutosavePeriod.fromIndex ((current name).toInt % 256).toNat).index =
      (current name).toInt
  | autosaveInterval unit =>
    autosaveClampInterval (readPeriod (read unit) (current unit)) ((current name).toInt % 65536) =
      (current name).toInt
  | autoUpdateInterval unit =>
    autoUpdateClampInterval (readPeriod (read unit) (current unit)) ((current name).toInt % 65536) =
      (current name).toInt
  | _ => true

def fieldInPlace (fields : Object Token) (rest : Bytes) (current : Settings) (field : Field) : Bool :=
  let found := reached field.name colon (fields.written Token.written rest)
  match fields.locate Token.written field.name rest with
  | none => found = none && field.rule.keeps (ownReading fields) current field.name
  | some (member, after) => found = some (member.assigned Token.written after) && field.rule.fits member

def sectionInPlace (document : Document) (part : Section) (current : Settings) : Bool :=
  let found := reached part.name brace document.text
  match document.place? part.name with
  | none => found = none
  | some (fields, rest) =>
    found = some (fields.written Token.written rest) &&
      part.fields.all (fieldInPlace fields rest current)

/-- Two readings agree on what a rule of a kind looks at. -/
def Reading.Agrees (kind : Kind) (read other : Reading) : Prop :=
  match kind with
  | .flag => read.bool = other.bool
  | .number => read.int = other.int
  | .text => read.str = other.str

theorem Rule.apply_congr (env : Environment) {read other : Bytes → Reading} (current : Settings)
    {name : Bytes} {rule : Rule} (hname : (read name).Agrees rule.kind (other name))
    (hunit : ∀ unit ∈ rule.unit?, (read unit).Agrees .number (other unit)) :
    rule.apply env read current name = rule.apply env other current name := by
  cases rule with
  | autosaveInterval unit | autoUpdateInterval unit =>
    have hperiod : (read unit).int = (other unit).int := hunit unit rfl
    have hint : (read name).int = (other name).int := hname
    simp only [Rule.apply, readPeriod, hperiod, hint]
  | flag | https =>
    have hbool : (read name).bool = (other name).bool := hname
    simp only [Rule.apply, hbool]
  | logFileSize | unsigned | leaseEntries | clamped | period | port =>
    have hint : (read name).int = (other name).int := hname
    simp only [Rule.apply, readPeriod, hint]
  | textKept | textSet | oneOf | ntpServers | timezone | certName | certStorage | hostName =>
    have hstr : (read name).str = (other name).str := hname
    simp only [Rule.apply, hstr]

theorem reading_of_not_reached {seg name : Bytes} (hreached : reached name colon seg = none) :
    reading seg name = ⟨[], id, id⟩ := by
  have hvalue : valueOf seg name = none := by rw [valueOf_eq, hreached, map_none]
  have habsent : present seg name = false := by simp [present, hvalue]
  have hstr : jsonGetStr seg name = [] := by simp [jsonGetStr, hvalue]
  have hbool : jsonGetBool seg name = id := funext (jsonGetBool_of_absent habsent)
  have hint : jsonGetInt seg name = id := funext (jsonGetInt_of_absent habsent)
  rw [reading, hstr, hbool, hint]

variable {current : Settings} {field : Field}

theorem reading_agrees {fields : Object Token} {rest : Bytes}
    (hplace : fieldInPlace fields rest current field) :
    (reading (fields.written Token.written rest) field.name).Agrees field.rule.kind
      (ownReading fields field.name) := by
  have hmember := Object.map_locate Token.written fields field.name rest
  rw [fieldInPlace] at hplace
  rw [ownReading, ← hmember]
  cases hlocate : fields.locate Token.written field.name rest with
  | none =>
    simp only [hlocate, Bool.and_eq_true, decide_eq_true_eq] at hplace
    rw [reading_of_not_reached hplace.1]
    cases field.rule.kind <;> rfl
  | some located =>
    obtain ⟨member, after⟩ := located
    simp only [hlocate, Bool.and_eq_true, decide_eq_true_eq] at hplace
    obtain ⟨hreached, hfits⟩ := hplace
    rw [Rule.fits] at hfits
    cases hkind : field.rule.kind <;> cases hvalue : member.value <;>
      simp only [hkind, hvalue, Bool.false_eq_true, Bool.and_eq_true, List.all_eq_true,
        Bool.not_eq_true'] at hfits
    · have hbool := funext (jsonGetBool_of_reached hreached hvalue hfits)
      simpa [Reading.Agrees, reading, Token.isOn, hvalue] using hbool
    · have hafter : ∀ byte ∈ after.head?, isDigit byte = false := by
        obtain ⟨first, text, rfl, hfirst⟩ := Object.after_located hlocate
        intro byte hbyte
        cases hbyte
        rcases hfirst with rfl | rfl <;> decide
      rw [← hvalue] at hfits
      exact funext (jsonGetInt_of_reached hreached hvalue hfits hafter)
    · have htext := jsonGetStr_of_reached hreached hvalue hfits.1 hfits.2
      simpa [Reading.Agrees, reading, Token.toText, hvalue] using htext

/-- What a rule of the tables needs so that an absent key has no effect. -/
def Rule.sound : Rule → Bool
  | clamped low high => isInt32 low && isInt32 high
  | oneOf texts => !texts.contains []
  | _ => true

variable {part : Section}

theorem sound_of_mem (hfield : field ∈ part.fields) : field.rule.sound := by
  have htable : ∀ part : Section, part.fields.all (fun field ↦ field.rule.sound) := by
    intro part
    cases part <;> decide +kernel
  exact List.all_eq_true.mp (htable part) field hfield

theorem unit_of_mem (hfield : field ∈ part.fields) {unit : Bytes}
    (hunit : unit ∈ field.rule.unit?) : ⟨unit, .period⟩ ∈ part.fields := by
  have htable : ∀ part : Section, ∀ field ∈ part.fields, ∀ unit ∈ field.rule.unit?,
      ⟨unit, .period⟩ ∈ part.fields := by
    intro part
    cases part <;> decide +kernel
  exact htable part field hfield unit hunit

theorem toInt32_eq_self {value : Int} (hvalue : isInt32 value) : toInt32 value = value := by
  simp only [isInt32, Bool.and_eq_true, decide_eq_true_eq] at hvalue
  rw [toInt32]
  omega

theorem clamp_of_mem {low high value : Int} (hvalue : low ≤ value ∧ value ≤ high) :
    clamp low high value = value := by
  rw [clamp, if_neg (by omega), if_neg (by omega)]

/-- A rule whose key is absent leaves a value it keeps as it is. -/
theorem apply_of_absent (env : Environment) {read : Bytes → Reading}
    {name : Bytes} {rule : Rule} (hread : read name = ⟨[], id, id⟩) (hsound : rule.sound)
    (hadmits : rule.admits (current name)) (hkeeps : rule.keeps read current name) :
    rule.apply env read current name = current name := by
  simp only [Rule.admits, Bool.and_eq_true, Bool.or_eq_true, decide_eq_true_eq] at hadmits
  obtain ⟨hkind, hrange⟩ := hadmits
  have hint : (read name).int = id := by rw [hread]
  cases rule with
  | flag =>
    rw [Rule.apply, hread]
    exact (Setting.eq_flag hkind).symm
  | https =>
    simp only [Rule.apply, hread, id]
    split
    · exact (Setting.eq_flag hkind).symm
    · rfl
  | logFileSize => simp [Rule.apply, hread]
  | unsigned =>
    have hbounds : 0 ≤ (current name).toInt ∧ (current name).toInt < 0x100000000 := by
      simpa using hrange
    have hvalue : toUnsigned (toInt32 (current name).toInt) = (current name).toInt := by
      rw [toUnsigned, toInt32]
      omega
    rw [Rule.apply, hint, id_eq, hvalue]
    exact (Setting.eq_number hkind).symm
  | leaseEntries =>
    simp only [Rule.keeps, Bool.or_eq_true, Bool.and_eq_true, decide_eq_true_eq] at hkeeps
    have hsmall : isInt32 (current name).toInt := by
      simp only [isInt32, kMinLeaseEntries, kMaxLeaseEntries, Bool.and_eq_true,
        decide_eq_true_eq] at hkeeps ⊢
      omega
    have hvalue : (if (current name).toInt = 0 then 0
        else clamp kMinLeaseEntries kMaxLeaseEntries (current name).toInt) = (current name).toInt := by
      split
      · omega
      · exact clamp_of_mem (hkeeps.resolve_left ‹_›)
    simp only [Rule.apply, hread, id, toInt32_eq_self hsmall, hvalue]
    exact (Setting.eq_number hkind).symm
  | clamped low high =>
    simp only [Rule.keeps, Bool.and_eq_true, decide_eq_true_eq] at hkeeps
    have hsmall : isInt32 (current name).toInt := by
      simp only [Rule.sound, isInt32, Bool.and_eq_true, decide_eq_true_eq] at hsound ⊢
      omega
    simp only [Rule.apply, hread, id, toInt32_eq_self hsmall, clamp_of_mem hkeeps]
    exact (Setting.eq_number hkind).symm
  | period =>
    have hindex := of_decide_eq_true hkeeps
    rw [Rule.apply, readPeriod, hint, id_eq, hindex]
    exact (Setting.eq_number hkind).symm
  | autosaveInterval unit | autoUpdateInterval unit =>
    have hinterval := of_decide_eq_true hkeeps
    rw [Rule.apply, hint, id_eq, hinterval]
    exact (Setting.eq_number hkind).symm
  | port =>
    simp only [Rule.apply, hread, id]
    split
    · exact (Setting.eq_number hkind).symm
    · rfl
  | textKept => simp [Rule.apply, hread]
  | textSet | timezone =>
    have hempty : (current name).toText = [] := List.isEmpty_iff.mp hkeeps
    rw [Setting.eq_text hkind, hempty]
    simp [Rule.apply, hread]
  | oneOf texts =>
    have hnone : texts.contains [] = false := by simpa [Rule.sound] using hsound
    simp only [Rule.apply, hread, hnone, Bool.false_eq_true, ↓reduceIte]
  | ntpServers =>
    rw [Rule.apply, hread]
    rfl
  | certName =>
    rw [Rule.apply, hread]
    rfl
  | certStorage =>
    have hnone : certStorageNames.contains [] = false := by decide
    simp only [Rule.apply, hread, hnone, Bool.false_and, Bool.false_eq_true, ↓reduceIte]
  | hostName =>
    rw [Rule.apply, hread]
    rfl

theorem importField_eq (env : Environment) {fields : Object Token} {rest : Bytes}
    (hfield : field ∈ part.fields)
    (hplaces : ∀ other ∈ part.fields, fieldInPlace fields rest current other)
    (hadmits : field.rule.admits (current field.name)) :
    importField env (fields.written Token.written rest) current field =
      ownField env fields current field := by
  have hagree := reading_agrees (hplaces field hfield)
  have hunits : ∀ unit ∈ field.rule.unit?, (reading (fields.written Token.written rest) unit).Agrees
      .number (ownReading fields unit) :=
    fun unit hunit ↦ reading_agrees (hplaces _ (unit_of_mem hfield hunit))
  have hown := Rule.apply_congr env current hagree hunits
  rw [importField, hown, ownField]
  cases hmember : fields.member? field.name with
  | some member => simp
  | none =>
    have hread : ownReading fields field.name = ⟨[], id, id⟩ := by simp [ownReading, hmember]
    have hkeeps : field.rule.keeps (ownReading fields) current field.name := by
      have hplace := hplaces field hfield
      have hlocate := Object.map_locate Token.written fields field.name rest
      rw [hmember, map_eq_none_iff] at hlocate
      simp only [fieldInPlace, hlocate, Bool.and_eq_true] at hplace
      exact hplace.2
    simp [apply_of_absent env hread (sound_of_mem hfield) hadmits hkeeps]

theorem importSection_eq (env : Environment) {document : Document} {device : Device}
    (hplace : sectionInPlace document part (device.settings part)) :
    importSection env document.text part (device.settings part) =
      ownSection env document part (device.settings part) := by
  have hobject := document.map_place part.name
  have htext : sectionText document.text part.name = reached part.name brace document.text := rfl
  rw [importSection, htext, ownSection, ← hobject]
  rw [sectionInPlace] at hplace
  cases hlocated : document.place? part.name with
  | none =>
    simp only [hlocated, decide_eq_true_eq] at hplace
    rw [hplace]
    rfl
  | some located =>
    obtain ⟨fields, rest⟩ := located
    simp only [hlocated, Bool.and_eq_true, decide_eq_true_eq, List.all_eq_true] at hplace
    obtain ⟨hreached, hplaces⟩ := hplace
    rw [hreached, map_some]
    funext key
    cases hfind : part.fields.find? fun field ↦ field.name = key with
    | none => simp only [hfind]
    | some field =>
      have hfield := List.mem_of_find?_eq_some hfind
      simpa only [hfind] using importField_eq env hfield hplaces (device.typed part field hfield)

def Kept (env : Environment) (document : Document) (part : Section) (field : Field) : Prop :=
  ∀ device imported, importSettings env document.text device = some imported →
    imported.settings part field.name = device.settings part field.name

/-- A switch is kept exactly if the search for its key finds nothing in the text from its section
to the end of the document. -/
theorem kept_iff {env : Environment} {document : Document}
    {seg : Bytes} (haccepts : accepts document.text) (hfield : field ∈ part.fields)
    (hrule : field.rule = .flag) (hseg : sectionText document.text part.name = some seg) :
    Kept env document part field ↔ present seg field.name = false := by
  have himport (device : Device) (imported : Device)
      (hsome : importSettings env document.text device = some imported) :
      imported.settings part field.name =
        .flag (jsonGetBool seg field.name (device.settings part field.name).isOn) := by
    rw [settings_of_import hsome, importSection, hseg]
    simp only [Section.find_field hfield, importField, hrule, Rule.apply, reading]
  constructor
  · intro hkept
    by_contra hpresent
    rw [Bool.not_eq_false, present] at hpresent
    -- what is found decides, whatever the device has
    have hfixed : ∃ on, ∀ default, jsonGetBool seg field.name default = on := by
      cases hvalue : valueOf seg field.name with
      | none => simp [hvalue] at hpresent
      | some text =>
        cases text with
        | nil => simp [hvalue] at hpresent
        | cons byte rest => exact ⟨_, fun default ↦ by rw [jsonGetBool, hvalue]⟩
    obtain ⟨on, hon⟩ := hfixed
    obtain ⟨imported, hsome⟩ := exists_import env (uniformDevice !on) haccepts
    have hvalue := hkept _ _ hsome
    rw [himport _ _ hsome, hon] at hvalue
    change _ = uniformSettings (!on) part field.name at hvalue
    rw [uniformSettings_field _ hfield, hrule] at hvalue
    cases on <;> cases hvalue
  · intro habsent device imported hsome
    have hkind : (device.settings part field.name).kind = .flag := by
      have hadmits := device.typed part field hfield
      rw [hrule] at hadmits
      simp only [Rule.admits, Bool.and_eq_true, decide_eq_true_eq] at hadmits
      exact hadmits.1
    rw [himport device imported hsome, jsonGetBool_of_absent habsent]
    exact (Setting.eq_flag hkind).symm

/-- A document whose sections are in place is read as it is meant. For a switch that its section does
not have this is exact. -/
theorem reads_own_sections (env : Environment) (document : Document) :
    (∀ device, (∀ part, sectionInPlace document part (device.settings part) = true) →
      ReadsOwn env document device) ∧
    ∀ part, ∀ field ∈ part.fields, field.rule = .flag → ∀ fields rest,
      document.place? part.name = some (fields, rest) →
      reached part.name brace document.text = some (fields.written Token.written rest) →
      accepts document.text = true → fields.member? field.name = none →
      (Kept env document part field ↔ present (fields.written Token.written rest) field.name = false) := by
  constructor
  · intro device hplace imported himport part
    rw [settings_of_import himport]
    exact importSection_eq env (hplace part)
  · intro part field hfield hrule fields rest _ hreached haccepts _
    exact kept_iff haccepts hfield hrule hreached

def formatMember : Member Entry := .compact (ascii "format") (.token (.text (plainPieces kFormat)))

def anyEnvironment : Environment where
  httpsAccepted _ := true
  pairPresentIn _ := true
  hostNameAccepted _ := true

def otherSectionDocument : Document where
  lead := noSpaces
  entries := .compact [formatMember, .compact (ascii "dhcp") (.object (.compact [])),
    .compact (ascii "dns") (.object (.compact [.compact (ascii "enabled") (.flag true)]))]
  trail := noSpaces

def completeSectionsDocument : Document where
  lead := noSpaces
  entries := .compact [formatMember,
    .compact (ascii "ssh") (.object (.compact [.compact (ascii "enabled") (.flag true),
      .compact (ascii "port") (.number false 2 [2, 2, 2]),
      .compact (ascii "allow_own_subnet") (.flag true), .compact (ascii "log_file") (.flag true),
      .compact (ascii "log_terminal") (.flag false),
      .compact (ascii "log_file_size") (.number false 1 [3, 1, 0, 7, 2])])),
    .compact (ascii "files") (.object (.compact [.compact (ascii "allow_own_subnet") (.flag false)]))]
  trail := noSpaces

/-- Two sections with a key of one name, and a section whose switch is absent. -/
theorem reads_own_sections_sample :
    (∃ imported, importSettings anyEnvironment completeSectionsDocument.text (uniformDevice false) =
        some imported ∧
      imported.settings .ssh (ascii "allow_own_subnet") = .flag true ∧
      imported.settings .files (ascii "allow_own_subnet") = .flag false ∧
      imported.settings .ssh (ascii "port") = .number 2222) ∧
    ¬ Kept anyEnvironment otherSectionDocument .dhcp ⟨ascii "enabled", .flag⟩ := by
  constructor
  · have hplace : ∀ part, sectionInPlace completeSectionsDocument part
        ((uniformDevice false).settings part) = true := by
      intro part
      cases part <;> decide +kernel
    obtain ⟨imported, himport⟩ := exists_import anyEnvironment (uniformDevice false)
      (by decide +kernel : accepts completeSectionsDocument.text = true)
    have hown := (reads_own_sections anyEnvironment completeSectionsDocument).1
      (uniformDevice false) hplace imported himport
    refine ⟨imported, himport, ?_, ?_, ?_⟩
    · rw [hown]
      decide +kernel
    · rw [hown]
      decide +kernel
    · rw [hown]
      decide +kernel
  · have hsome : (otherSectionDocument.place? Section.dhcp.name).isSome = true := by decide +kernel
    have hfound : ∀ located ∈ otherSectionDocument.place? Section.dhcp.name,
        reached Section.dhcp.name brace otherSectionDocument.text =
          some (located.1.written Token.written located.2) ∧
        (located.1.member? (ascii "enabled")).isNone = true ∧
        present (located.1.written Token.written located.2) (ascii "enabled") = true := by
      decide +kernel
    obtain ⟨⟨fields, rest⟩, hplace⟩ := isSome_iff_exists.mp hsome
    obtain ⟨hreached, habsent, hpresent⟩ := hfound _ hplace
    intro hkept
    have hnothing := ((reads_own_sections anyEnvironment otherSectionDocument).2 .dhcp
      ⟨ascii "enabled", .flag⟩ (by decide +kernel) rfl fields rest hplace hreached
      (by decide +kernel) (isNone_iff_eq_none.mp habsent)).mp hkept
    rw [hpresent] at hnothing
    cases hnothing

/-- `{"format":"dhcpserver-settings","dhcp":{},"dns":{"enabled":true}}` turns the DHCP server on. -/
theorem other_section_is_read : accepts otherSectionDocument.text = true ∧
      ¬ ReadsOwn anyEnvironment otherSectionDocument (uniformDevice false) := by
  have haccepts : accepts otherSectionDocument.text = true := by decide +kernel
  refine ⟨haccepts, fun hreads ↦ ?_⟩
  obtain ⟨imported, himport⟩ := exists_import anyEnvironment (uniformDevice false) haccepts
  have hown := congrFun (hreads imported himport .dhcp) (ascii "enabled")
  rw [settings_of_import himport] at hown
  revert hown
  decide +kernel

end DhcpServer.Web.SettingsImport
