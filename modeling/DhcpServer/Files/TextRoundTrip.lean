import DhcpServer.Files.DecodedTexts
import DhcpServer.Files.TextAnswers

/-!
# A text opened and saved

The page of the file explorer opens a text and sends it back as it came: `handleGetFileText`, `JSON.stringify`
of what has been parsed, and `handlePostFileText`.

The way back loses nothing. The way out loses the control characters that `JsonWriter::escape` drops, and
`looksLikeText` lets a text with a few of them pass. A modification time from 2^31 on is never that of the
file again.
-/

namespace DhcpServer.Files

open Library JsonText Web.Json Storage.PathUtil TextSaves TextDecoder List Option FileManager

def stringMember (key value rest : Bytes) : Bytes := needle key ++ colon :: stringified value (0x2C :: rest)

def countMember (key digits rest : Bytes) : Bytes := needle key ++ colon :: (digits ++ 0x2C :: rest)

/-- The members in front of the text. The modification time need not be sent. -/
def envelopeText (volume : Bytes) (opened : Opened) (guarded : Bool) : Bytes :=
  0x7B :: stringMember (ascii "volume") volume
    (stringMember (ascii "path") opened.path
      (if guarded then countMember (ascii "mtime") opened.mtime [] else []))

def saveEditor (volume : Bytes) (opened : Opened) (guarded : Bool) : Bytes :=
  envelopeText volume opened guarded ++
    (needle (ascii "text") ++ colon :: stringified opened.text [0x7D])

/-- `readBody` of a body that arrives whole. -/
def readBody (maxLen : Nat) (body : Bytes) : Bytes := body.take maxLen

/-! ## The envelope -/

section Envelope

variable {name key value digits text rest json volume path : Bytes} {opened : Opened} {guarded : Bool}

theorem find_string_of_ne (hname : isName name) (hraw : quote ∉ value) (hne : value ≠ name)
    (hrest : nameless rest) :
    find (needle name) (quote :: (value ++ quote :: rest)) = find (needle name) rest :=
  (find_quoted_of_ne hname hraw hne rest).trans (find_quote_of_head hname hrest)

theorem find_byte {byte : UInt8} (hbyte : quote ≠ byte) (text : Bytes) :
    find (needle name) (byte :: text) = find (needle name) text :=
  find_chunk (by simpa using hbyte : quote ∉ [byte]) text

def IsPlain (text : Bytes) : Prop := ∀ byte ∈ text, 0x20 ≤ byte ∧ byte ≠ quote ∧ byte ≠ backslash

theorem find_stringMember (hname : isName name) (hkey : quote ∉ key) (hne : key ≠ name)
    (hplain : IsPlain value) (hother : value ≠ name) (rest : Bytes) :
    find (needle name) (stringMember key value rest) = find (needle name) rest := by
  have hvalue : quote ∉ value := fun hmem ↦ (hplain quote hmem).2.1 rfl
  have htext : stringMember key value rest =
      quote :: (key ++ quote :: (colon :: (quote :: (value ++ quote :: (0x2C :: rest))))) := by
    rw [stringMember, stringified_plain hplain]
    simp [needle, quote]
  rw [htext, find_string_of_ne hname hkey hne (nameless_cons (by decide) _), find_byte (by decide),
    find_string_of_ne hname hvalue hother (nameless_cons (by decide) _), find_byte (by decide)]

theorem find_countMember (hname : isName name) (hkey : quote ∉ key) (hne : key ≠ name)
    (hdigits : quote ∉ digits) (rest : Bytes) :
    find (needle name) (countMember key digits rest) = find (needle name) rest := by
  have htext : countMember key digits rest =
      quote :: (key ++ quote :: (colon :: (digits ++ 0x2C :: rest))) := by
    simp [countMember, needle]
  rw [htext, find_string_of_ne hname hkey hne (nameless_cons (by decide) _), find_byte (by decide),
    find_chunk hdigits, find_byte (by decide)]

theorem valueOf_member {byte : UInt8} (hkey : colon ∉ key) (hbyte : byte ≠ blank)
    (hfound : find (needle key) json = some (needle key ++ colon :: byte :: rest)) :
    valueOf json key = some (byte :: rest) := by
  have hneedle : colon ∉ needle key := by
    simp only [needle, cons_append, mem_cons, mem_append, not_mem_nil, or_false, not_or]
    exact ⟨by decide, hkey, by decide⟩
  have hassigned : find [colon] (needle key ++ colon :: byte :: rest) = some (colon :: byte :: rest) := by
    rw [find_append_of_notMem hneedle]
    exact find_self rfl (byte :: rest)
  have hnamed : find (quote :: key ++ [quote]) json = some (needle key ++ colon :: byte :: rest) := hfound
  rw [valueOf, hnamed]
  simp only [bind_eq_bind, bind_some, hassigned, drop_succ_cons, drop_zero]
  rw [dropWhile_cons_of_neg (by simpa using hbyte)]
  rfl

theorem jsonGetStr_stringMember (hkey : colon ∉ key) (hplain : IsPlain value)
    (hfound : find (needle key) json = some (stringMember key value rest)) : jsonGetStr json key = value := by
  have hquoted : quoted (value ++ quote :: 0x2C :: rest) = some value ∧ unescape value = value := by
    clear hfound
    induction value with
    | nil => exact ⟨quoted_quote _, rfl⟩
    | cons byte value ih =>
      obtain ⟨⟨-, hquote, hbackslash⟩, hvalue⟩ := forall_mem_cons.mp hplain
      obtain ⟨hquoted, hunescape⟩ := ih hvalue
      constructor
      · rw [cons_append, quoted_plain hquote hbackslash, hquoted]
        rfl
      · rw [unescape_plain hbackslash, hunescape]
  have hvalue : valueOf json key = some (quote :: (value ++ quote :: 0x2C :: rest)) :=
    valueOf_member hkey (by decide) (hfound.trans (by rw [stringMember, stringified_plain hplain]; rfl))
  rw [jsonGetStr, hvalue]
  simp only [if_true, hquoted.1, map_some, hquoted.2, getD_some]

theorem intText_natCast (number : Nat) : intText (number : Int) = (decimalDigits number).map digitByte := by
  rw [intText, if_neg (by omega), Int.natAbs_natCast]

theorem jsonGetInt_countMember {number : Nat} (hkey : colon ∉ key) {rest : Bytes}
    (hfound : find (needle key) json = some (countMember key (intText number) rest)) (default : Int) :
    jsonGetInt json key default = min 2147483647 (number : Int) := by
  obtain ⟨leading, digits, hdigits, hnumber⟩ := exists_decimalDigits number
  have hcomma : ∀ byte ∈ (0x2C :: rest).head?, isDigit byte = false := by
    intro byte hbyte
    cases hbyte
    decide
  have hread := digitsValue_written (leading :: digits) hcomma
  have hleading : digitByte leading ≠ blank ∧ Web.Json.isSpace (digitByte leading) = false ∧
      digitByte leading ≠ 0x2D ∧ digitByte leading ≠ 0x2B := by
    clear * -
    revert leading
    decide
  obtain ⟨hblank, hspace, hminus, hplus⟩ := hleading
  rw [countMember, intText_natCast, hdigits, map_cons, cons_append] at hfound
  rw [map_cons, cons_append, hnumber] at hread
  have hdrop : (digitByte leading :: (digits.map digitByte ++ 0x2C :: rest)).dropWhile Web.Json.isSpace =
      digitByte leading :: (digits.map digitByte ++ 0x2C :: rest) := by simp [hspace]
  rw [jsonGetInt, valueOf_member hkey hblank hfound]
  simp only [atoi, hdrop, if_neg hminus, if_neg hplus, hread]

theorem notMem_intText {byte : UInt8} (hbyte : ∀ digit, digitByte digit ≠ byte) (number : Nat) :
    byte ∉ intText (number : Int) := by
  rw [intText_natCast]
  intro hmem
  obtain ⟨digit, -, hdigit⟩ := List.mem_map.mp hmem
  exact hbyte digit hdigit

/-- What the page has, where nothing of it needs an escape or looks like a key. -/
structure Addressed (volume : Bytes) (opened : Opened) (mtime : Nat) : Prop where
  volume_plain : IsPlain volume
  volume_short : volume.length ≤ 3
  volume_other : ∀ key ∈ [ascii "path", ascii "mtime", ascii "text"], volume ≠ key
  path_plain : IsPlain opened.path
  path_slash : ∃ rest, opened.path = slash :: rest
  path_short : opened.path.length ≤ kMaxPathLen
  stamp : opened.mtime = intText mtime

theorem find_volume (volume : Bytes) (opened : Opened) (guarded : Bool) :
    find (needle (ascii "volume")) (envelopeText volume opened guarded) =
      some (stringMember (ascii "volume") volume (stringMember (ascii "path") opened.path
        (if guarded then countMember (ascii "mtime") opened.mtime [] else []))) := by
  rw [envelopeText, find_byte (by decide)]
  exact find_self rfl _

section Addressed

variable {mtime : Nat} (haddressed : Addressed volume opened mtime)

include haddressed

theorem Addressed.path_other (hname : isName name) : opened.path ≠ name := by
  obtain ⟨rest, hslash⟩ := haddressed.path_slash
  rintro hsame
  rw [hsame] at hslash
  exact notMem_name hname (by decide : isNameByte slash = false) (hslash ▸ mem_cons_self)

theorem Addressed.find_path : find (needle (ascii "path")) (envelopeText volume opened guarded) =
      some (stringMember (ascii "path") opened.path
        (if guarded then countMember (ascii "mtime") opened.mtime [] else [])) := by
  rw [envelopeText, find_byte (by decide), find_stringMember (by decide) (by decide) (by decide)
    haddressed.volume_plain (haddressed.volume_other _ (by decide))]
  exact find_self rfl _

theorem Addressed.find_behind (hname : isName name)
    (hother : ascii "volume" ≠ name ∧ volume ≠ name ∧ ascii "path" ≠ name) (rest : Bytes) :
    find (needle name) (0x7B :: stringMember (ascii "volume") volume
      (stringMember (ascii "path") opened.path rest)) = find (needle name) rest := by
  rw [find_byte (by decide), find_stringMember hname (by decide) hother.1 haddressed.volume_plain hother.2.1,
    find_stringMember hname (by decide) hother.2.2 haddressed.path_plain (haddressed.path_other hname)]

theorem Addressed.jsonGetInt_envelope :
    jsonGetInt (envelopeText volume opened guarded) (ascii "mtime") (-1) =
      if guarded then min 2147483647 (mtime : Int) else -1 := by
  have hfound : find (needle (ascii "mtime")) (envelopeText volume opened guarded) =
      find (needle (ascii "mtime")) (if guarded then countMember (ascii "mtime") opened.mtime [] else []) :=
    haddressed.find_behind (by decide) ⟨by decide, haddressed.volume_other _ (by decide), by decide⟩ _
  cases guarded with
  | false =>
    have hnone : valueOf (envelopeText volume opened false) (ascii "mtime") = none := by
      have hnamed : find (quote :: ascii "mtime" ++ [quote]) (envelopeText volume opened false) = none :=
        hfound
      rw [valueOf, hnamed]
      rfl
    rw [jsonGetInt, hnone]
    rfl
  | true =>
    rw [haddressed.stamp] at hfound
    exact jsonGetInt_countMember (by decide) (hfound.trans (find_self rfl _)) (-1)

theorem Addressed.find_text (rest : Bytes) :
    find (needle (ascii "text")) (envelopeText volume opened guarded ++ (needle (ascii "text") ++ rest)) =
      some (needle (ascii "text") ++ rest) := by
  have happend : envelopeText volume opened guarded ++ (needle (ascii "text") ++ rest) =
      0x7B :: stringMember (ascii "volume") volume (stringMember (ascii "path") opened.path
        (if guarded then countMember (ascii "mtime") opened.mtime (needle (ascii "text") ++ rest)
          else needle (ascii "text") ++ rest)) := by
    cases guarded <;> simp [envelopeText, stringMember, countMember, stringified]
  rw [happend, haddressed.find_behind (by decide)
    ⟨by decide, haddressed.volume_other _ (by decide), by decide⟩]
  cases guarded with
  | false => exact find_self rfl rest
  | true =>
    have hdigits : quote ∉ opened.mtime := by
      rw [haddressed.stamp]
      exact notMem_intText (by decide) mtime
    rw [if_pos rfl, find_countMember (by decide) (by decide) (by decide) hdigits]
    exact find_self rfl rest

theorem Addressed.envelope_saveEditor :
    envelope (saveEditor volume opened guarded) = envelopeText volume opened guarded := by
  have hfound : find (ascii "\"text\"") (saveEditor volume opened guarded) =
      some (needle (ascii "text") ++ colon :: stringified opened.text [0x7D]) := haddressed.find_text _
  rw [envelope, hfound, saveEditor, getD_some, length_append, Nat.add_sub_cancel, take_left]

def Addressed.place (guarded : Bool) : Place where
  before := envelopeText volume opened guarded
  key := ascii "text"
  gap := noSpaces
  blanks := []
  after := [0x7D]
  first := by
    intro front back hfront
    have hfound : find (needle (ascii "text")) (envelopeText volume opened guarded ++ _) = _ :=
      haddressed.find_text []
    have hcut : find (needle (ascii "text")) _ = _ :=
      find_eq_cutAt quote (ascii "text" ++ [quote])
        (envelopeText volume opened guarded ++ needle (ascii "text"))
    rw [append_nil, hcut] at hfound
    obtain ⟨⟨before, behind⟩, hfirst, hbehind⟩ := map_eq_some_iff.mp hfound
    obtain rfl : behind = [] := by
      have hlength := congrArg List.length hbehind
      simp [needle] at hlength
      exact hlength
    have hbefore : envelopeText volume opened guarded = before := by
      have hwhole := eq_of_cutAt hfirst
      rw [append_nil] at hwhole
      exact append_cancel_right hwhole
    rw [hbefore]
    exact length_le_of_cutAt hfirst hfront
  single := by decide
  separated := by simp

theorem Addressed.jsonDecodeStr_saveEditor (hutf : JsonReading.IsUtf8 opened.text) :
    jsonDecodeStr (saveEditor volume opened guarded) (ascii "text") = some opened.text := by
  obtain ⟨scalars, hscalars⟩ := hutf
  have hspells : Spells scalars (opened.text.flatMap stringifiedByte) := by
    rw [hscalars]
    exact spells_stringified scalars
  have hbody : (haddressed.place guarded).body (opened.text.flatMap stringifiedByte) =
      saveEditor volume opened guarded := by
    simp [Place.body, Addressed.place, saveEditor, noSpaces, stringified, quote]
  have hdecoded := (haddressed.place guarded).decode_spelled hspells
  obtain ⟨decoded, hcall, htext⟩ := TextDecoder.jsonDecodeStrAt_eq (saveEditor volume opened guarded)
    (ascii "text")
  rw [hbody] at hdecoded
  rw [← htext]
  obtain rfl := Option.some.inj (hcall.symm.trans hdecoded)
  rw [hscalars]
  rfl

end Addressed

end Envelope

theorem length_decimalDigits_le {number places : Nat} (hplaces : 0 < places)
    (hnumber : number < 10 ^ places) : (decimalDigits number).length ≤ places := by
  induction number using decimalDigits.induct generalizing places with
  | case1 number hsmall =>
    rw [decimalDigits, if_pos hsmall]
    exact hplaces
  | case2 number hlarge ih =>
    obtain ⟨less, rfl⟩ : ∃ less, places = less + 1 := ⟨places - 1, by omega⟩
    have hless : 0 < less := by
      rcases Nat.eq_zero_or_pos less with rfl | hless
      · omega
      · exact hless
    have hdigits := ih hless (Nat.div_lt_of_lt_mul (by rw [Nat.pow_succ] at hnumber; omega))
    rw [decimalDigits, if_neg hlarge, length_append]
    exact Nat.succ_le_succ hdigits

theorem length_stringified_le {text : Bytes} (hkept : ∀ byte ∈ text, isKept byte) :
    (text.flatMap stringifiedByte).length ≤ 2 * text.length := by
  induction text with
  | nil => rfl
  | cons byte text ih =>
    obtain ⟨hbyte, htext⟩ := forall_mem_cons.mp hkept
    have hlength : (stringifiedByte byte).length ≤ 2 := by
      by_cases hprinted : 0x20 ≤ byte
      · by_cases hquoted : byte = 0x22 ∨ byte = 0x5C
        · rw [stringifiedByte, if_pos hquoted]
          rfl
        · rw [stringifiedByte_plain hprinted (not_or.mp hquoted).1 (not_or.mp hquoted).2]
          exact Nat.le_succ _
      · have hsmall : ¬Web.Json.kAsciiPrintableMin ≤ byte := hprinted
        simp only [isKept, hsmall, decide_false, Bool.false_or, Bool.or_eq_true, decide_eq_true_eq] at hbyte
        rcases hbyte with (rfl | rfl) | rfl <;> decide
    have hrest := ih htext
    rw [flatMap_cons, length_append, length_cons]
    omega

section Sizes

variable {volume : Bytes} {opened : Opened} {guarded : Bool} {mtime : Nat}

theorem Addressed.readBody_saveEditor (haddressed : Addressed volume opened mtime) (hmtime : mtime < 10 ^ 16)
    (hkept : ∀ byte ∈ opened.text, isKept byte) (hlength : opened.text.length ≤ kMaxTextBytes) :
    readBody (kMaxTextBytes * 2 + 4096) (saveEditor volume opened guarded) =
      saveEditor volume opened guarded := by
  have htext := length_stringified_le hkept
  have hvolume := haddressed.volume_short
  have hpath := haddressed.path_short
  have hdigits := length_decimalDigits_le (by decide) hmtime
  have hplain (text : Bytes) (hplain : IsPlain text) : text.flatMap stringifiedByte = text :=
    flatMap_stringifiedByte_plain hplain
  have hnames : (ascii "volume").length = 6 ∧ (ascii "path").length = 4 ∧ (ascii "mtime").length = 5 ∧
      (ascii "text").length = 4 := by decide
  obtain ⟨hvolumeKey, hpathKey, hmtimeKey, htextKey⟩ := hnames
  have henvelope : (envelopeText volume opened guarded).length ≤ 400 := by
    rw [kMaxPathLen] at hpath
    cases guarded <;>
      simp [envelopeText, stringMember, countMember, stringified, needle, hplain _ haddressed.volume_plain,
        hplain _ haddressed.path_plain, haddressed.stamp, intText_natCast, hvolumeKey, hpathKey,
        hmtimeKey] <;>
      omega
  refine take_of_length_le ?_
  simp only [saveEditor, stringified, needle, length_append, length_cons, length_nil, htextKey]
  omega

end Sizes

theorem countP_kept (text : Bytes) :
    text.countP isSuspicious + (Web.Json.kept text).length =
      (Web.Json.kept text).countP isSuspicious + text.length := by
  induction text with
  | nil => rfl
  | cons byte text ih =>
    rw [Web.Json.kept] at ih ⊢
    by_cases hkept : isKept byte
    · rw [filter_cons_of_pos hkept, countP_cons, countP_cons, length_cons, length_cons]
      omega
    · have hsuspicious : isSuspicious byte = true := by
        simp only [isKept, Bool.or_eq_true, decide_eq_true_eq, not_or] at hkept
        obtain ⟨⟨⟨hprinted, hnewline⟩, hreturn⟩, htab⟩ := hkept
        have hcontrol : ¬TextSaves.kAsciiPrintableMin ≤ byte := hprinted
        simp [isSuspicious, hcontrol, hnewline, hreturn, htab]
      rw [filter_cons_of_neg hkept, countP_cons_of_pos hsuspicious, length_cons]
      omega

theorem looksLikeText_kept {text : Bytes} (htext : looksLikeText text) :
    looksLikeText (Web.Json.kept text) := by
  simp only [looksLikeText, Bool.and_eq_true, Bool.not_eq_true', decide_eq_true_eq,
    contains_eq_mem, decide_eq_false_iff_not] at htext ⊢
  obtain ⟨hzero, hcount⟩ := htext
  refine ⟨fun hmem ↦ hzero (mem_of_mem_filter hmem), ?_⟩
  have hdropped := countP_kept text
  have hfewer : (Web.Json.kept text).length ≤ text.length := length_filter_le _ _
  rw [kBinaryRatioPercent] at hcount ⊢
  omega

section Saving

variable {moment : Moment} {explorer : Explorer} {volume path text old : Bytes} {names : List Bytes}

theorem shownPath_eq (habs : absolute path = some names) : shownPath path = buildPath names := by
  obtain ⟨hsplit, haddr⟩ := absolute_eq_some habs
  rw [shownPath, normalize_eq_some_iff.mpr ⟨names, hsplit, haddr, rfl⟩, getD_some]

/-- The volume has room for the text, and its part can be made. -/
structure Writable (moment : Moment) (explorer : Explorer) (volume : Bytes) (names : List Bytes)
    (size : Nat) : Prop where
  room : size + TransferEngine.kFreeSpaceReserve ≤ moment.freeBytes volume
  part : (explorer.volumes volume).find (FileSink.partOf names) ≠ some .dir

section Calm

variable (hcalm : moment.calls.fate = fun _ ↦ {}) (habs : absolute path = some names)
  (hold : (explorer.volumes volume).find names = some (.file old))

include hcalm habs hold

theorem openWrite_calm (size : Nat) :
    openWrite (moment.calls.from 1) (moment.freeBytes volume) (explorer.volumes volume) path
        0 0 size =
      if moment.freeBytes volume < size + TransferEngine.kFreeSpaceReserve then
        .error ⟨.noSpace, some (ascii "volume is full")⟩
      else
        match FileSink.create (explorer.volumes volume) names with
        | some opened =>
          .ok (opened.1,
            { partSize := partSize (explorer.volumes volume) names, chunk := size, total := size }, opened.2)
        | none => .error ⟨.ioError, some []⟩ := by
  have hfate (call : Nat) : (moment.calls.from 1).fate call = {} := congrFun hcalm (1 + call)
  have hroot : names ≠ [] := by
    rintro rfl
    rw [FileTree.find_nil] at hold
    cases hold
  have hfile : (explorer.volumes volume).find names ≠ some .dir := by
    rw [hold]
    rintro ⟨⟩
  have hneeded : UploadRange.neededBytes
      { partSize := partSize (explorer.volumes volume) names, chunk := size, total := size } = size := rfl
  rw [openWrite, within_of_absolute (by rw [hfate]) habs, if_neg hroot, if_neg hfile]
  simp only [UploadRange.check, ne_eq, not_true_eq_false, decide_false, Bool.not_false, if_true, hneeded,
    hfate, FileSink.openAt, lt_self_iff_false, false_and, if_false]
  split_ifs with hroom
  · rfl
  · cases FileSink.create (explorer.volumes volume) names <;> rfl

theorem saveText_refused (hwritable : ¬Writable moment explorer volume names text.length) :
    ∃ failure, saveText moment explorer volume path text = (sendFailure failure, explorer) := by
  rw [saveText, openWrite_calm hcalm habs hold]
  by_cases hroom : moment.freeBytes volume < text.length + TransferEngine.kFreeSpaceReserve
  · rw [if_pos hroom]
    exact ⟨_, rfl⟩
  · have hpart : (explorer.volumes volume).find (FileSink.partOf names) = some .dir := by
      by_contra hpart
      exact hwritable ⟨not_lt.mp hroom, hpart⟩
    rw [if_neg hroom, FileSink.create, FileTree.write_eq_none hpart]
    exact ⟨_, rfl⟩

theorem saveText_written (hwritable : Writable moment explorer volume names text.length) :
    ∃ mtime after, saveText moment explorer volume path text = (.saved text.length mtime, after) ∧
      (after.volumes volume).find names = some (.file text) := by
  have hfate (call : Nat) : moment.fate call = {} := congrFun hcalm call
  have hroot : names ≠ [] := by
    rintro rfl
    rw [FileTree.find_nil] at hold
    cases hold
  have hne : FileSink.partOf names ≠ names := FileSink.partOf_ne hroot
  have hsame : (FileSink.partOf names).dropLast = names.dropLast := by
    rw [← dropLast_append_getLast hroot, FileSink.partOf_concat, dropLast_concat, dropLast_concat]
  have hpart : FileSink.partOf names ≠ [] := by
    rw [← dropLast_append_getLast hroot, FileSink.partOf_concat]
    simp
  have hdir : (explorer.volumes volume).IsDir names.dropLast := by
    rw [← dropLast_append_getLast hroot] at hold
    exact FileTree.find_parent hold
  have hbetween : names.dropLast ≠ FileSink.partOf names := by
    intro hequal
    have hlength := congrArg List.length hsame
    rw [← hequal] at hlength
    have hpos := length_pos_iff.mpr hpart
    rw [← hequal] at hpos
    rw [length_dropLast] at hlength
    omega
  obtain ⟨opened, hopened⟩ := FileTree.exists_write hpart (hsame.symm ▸ hdir) hwritable.part ([] : Bytes)
  obtain ⟨-, hfind⟩ := FileTree.write_spec hopened
  have hcreate : FileSink.create (explorer.volumes volume) names =
      some (⟨names, FileSink.partOf names⟩, opened) := by
    rw [FileSink.create, hopened]
    rfl
  -- the text is written behind an empty part
  have hwritten : ∃ written, (if text = [] then some opened
      else FileSink.write ⟨names, FileSink.partOf names⟩ {} opened text) = some written ∧
      written.find (FileSink.partOf names) = some (.file text) ∧
      ∀ other, other ≠ FileSink.partOf names → written.find other = (explorer.volumes volume).find other := by
    have hempty : opened.find (FileSink.partOf names) = some (.file []) := by rw [hfind, if_pos rfl]
    split_ifs with htext
    · exact ⟨opened, rfl, by rw [hempty, htext], fun other hother ↦ by rw [hfind, if_neg hother]⟩
    · have hread : (opened.read (FileSink.partOf names)).getD [] = [] := by
        rw [FileTree.read_eq_some_iff.mpr hempty]
        rfl
      have hparent : opened.IsDir (FileSink.partOf names).dropLast := by
        rw [hsame]
        exact hdir.imp_right fun hparent ↦ by rw [hfind, if_neg hbetween, hparent]
      have hfree : opened.find (FileSink.partOf names) ≠ some .dir := by
        rw [hempty]
        rintro ⟨⟩
      obtain ⟨written, hwrite⟩ := FileTree.exists_write hpart hparent hfree text
      obtain ⟨-, hfound⟩ := FileTree.write_spec hwrite
      refine ⟨written, ?_, by rw [hfound, if_pos rfl], fun other hother ↦ ?_⟩
      · simp only [FileSink.write, hread, nil_append]
        exact hwrite
      · rw [hfound, if_neg hother, hfind, if_neg hother]
  obtain ⟨written, hwrite, hcontent, hothers⟩ := hwritten
  have htarget : written.find names ≠ some .dir := by
    rw [hothers names hne.symm, hold]
    rintro ⟨⟩
  have hparent : written.IsDir names.dropLast :=
    hdir.imp_right fun hparent ↦ (hothers _ hbetween).trans hparent
  have hcommit : (FileSink.commit ⟨names, FileSink.partOf names⟩ {} {} {} {} written).1 :=
    FileSink.commit_calm hcontent hroot hparent htarget {}
  have hfinal := FileSink.commit_complete hcontent hne hcommit
  rw [saveText, openWrite_calm hcalm habs hold, if_neg (not_lt.mpr hwritable.room), hcreate]
  simp only [hfate, hwrite, hcommit, if_true]
  exact ⟨_, _, rfl, by simpa [Explorer.setVolume] using hfinal⟩

end Calm

end Saving

/-! ## Opened and saved -/

def kVolumes : List Bytes := [ascii "fat", ascii "sd"]

/-- A text is opened, and nothing happens to the file until the page sends it back. -/
structure Editing where
  explorer : Explorer
  opening : Moment
  saving : Moment
  volume : Bytes
  path : Bytes
  payload : TextPayload
  answered : handleGetFileText opening explorer (some volume) (some path) = .text payload
  registered : volume ∈ kVolumes
  /-- the page has the name from a text of its own -/
  named : JsonReading.IsUtf8 (shownPath path)
  encoded : JsonReading.IsUtf8 payload.text
  /-- no call of the save fails -/
  calm : saving.calls.fate = fun _ ↦ {}
  unchanged : saving.mtime volume (shownPath path) = payload.mtime
  /-- the page has the number as it is -/
  precise : payload.mtime < 2 ^ 53

/-- The save is accepted, and the file has the bytes that have been read. -/
def Editing.ChangesNothing (editing : Editing) (guarded : Bool) : Prop :=
  ∃ opened, showEditorFile (cString (FileJson.text editing.payload)) = some opened ∧ ∃ size mtime after,
      handlePostFileText editing.saving editing.explorer
          (readBody (kMaxTextBytes * 2 + 4096) (saveEditor editing.volume opened guarded)) =
        (.saved size mtime, after) ∧
      openRead {} (after.volumes editing.volume) editing.path = .ok editing.payload.text

/-- No byte is dropped, the modification time comes back as it is, and the volume takes the text. -/
structure Editing.Survives (editing : Editing) (guarded : Bool) : Prop where
  kept : ∀ byte ∈ editing.payload.text, isKept byte = true
  stamp : guarded = true → editing.payload.mtime < 2 ^ 31
  writable : ∀ names, absolute editing.path = some names →
    Writable editing.saving editing.explorer editing.volume names editing.payload.text.length

section Editing

variable {moment : Moment} {explorer : Explorer} {volume path : Bytes} {payload : TextPayload}

theorem handleGetFileText_eq_text
    (htext : handleGetFileText moment explorer (some volume) (some path) = .text payload) :
    ∃ names, absolute path = some names ∧ (explorer.volumes volume).find names = some (.file payload.text) ∧
      payload.text.length ≤ kMaxTextBytes ∧ looksLikeText payload.text ∧
      payload.volume = volume ∧ payload.path = buildPath names ∧
      payload.size = payload.text.length := by
  simp only [handleGetFileText] at htext
  cases hstat : stat (moment.fate 0) (explorer.volumes volume) path with
  | error failure =>
    rw [hstat] at htext
    cases htext
  | ok info =>
    cases hopen : openRead (moment.fate 1) (explorer.volumes volume) path with
    | error failure =>
      simp only [hstat, hopen, sendFailure] at htext
      split_ifs at htext
    | ok text =>
      simp only [hstat, hopen] at htext
      split_ifs at htext with _ _ hlong _ hlooks
      obtain rfl := Response.text.inj htext
      obtain ⟨names, habs, hfind⟩ := openRead_eq_ok hopen
      exact ⟨names, habs, hfind, not_lt.mp hlong, by simpa using hlooks, rfl, shownPath_eq habs, rfl⟩

theorem plain_buildPath {names : List Bytes} (haddr : Addressable names) : IsPlain (buildPath names) := by
  have hnormal : (normalize (buildPath names)).isSome := by
    rw [normalize_buildPath haddr]
    rfl
  intro byte hbyte
  rcases valid_of_normalize hnormal byte hbyte with rfl | hvalid
  · decide
  · simp only [Storage.PathUtil.isValidChar, Bool.and_eq_true, decide_eq_true_eq, bne_iff_ne, ne_eq] at hvalid
    obtain ⟨⟨⟨⟨⟨⟨⟨⟨⟨⟨hprinted, -⟩, -⟩, hbackslash⟩, hquote⟩, -⟩, -⟩, -⟩, -⟩, -⟩, -⟩ := hvalid
    exact ⟨hprinted, hquote, hbackslash⟩

end Editing

namespace Editing

variable (editing : Editing) {names : List Bytes} {guarded : Bool}

def opened : Opened :=
  ⟨editing.payload.path, intText editing.payload.mtime, Web.Json.kept editing.payload.text⟩

theorem exists_names : ∃ names, absolute editing.path = some names ∧ Addressable names ∧
    (editing.explorer.volumes editing.volume).find names = some (.file editing.payload.text) ∧
    editing.payload.path = buildPath names := by
  obtain ⟨names, habs, hfind, -, -, -, hpath, -⟩ := handleGetFileText_eq_text editing.answered
  exact ⟨names, habs, (absolute_eq_some habs).2, hfind, hpath⟩

theorem showEditorFile_answer :
    showEditorFile (cString (FileJson.text editing.payload)) = some editing.opened := by
  obtain ⟨names, habs, -, hlength, -, hvolume, hpath, hsize⟩ := handleGetFileText_eq_text editing.answered
  obtain ⟨-, haddr⟩ := absolute_eq_some habs
  have hvolumeUtf : JsonReading.IsUtf8 editing.payload.volume := by
    rw [hvolume]
    have hregistered := editing.registered
    have hall : ∀ volume ∈ kVolumes, JsonReading.IsUtf8 volume := by decide
    exact hall _ hregistered
  have hpathUtf : JsonReading.IsUtf8 editing.payload.path := by
    rw [hpath, ← shownPath_eq habs]
    exact editing.named
  have hkept : Web.Json.kept editing.payload.path = editing.payload.path := by
    rw [hpath]
    exact kept_of_printed fun byte hbyte ↦ (plain_buildPath haddr byte hbyte).1
  have hsmall : editing.payload.size < 2 ^ 63 := by
    rw [kMaxTextBytes] at hlength
    omega
  have hshown := showEditorFile_text hvolumeUtf hpathUtf editing.encoded hsmall
    (lt_trans editing.precise (by decide))
  rw [hkept] at hshown
  exact hshown

theorem addressed : Addressed editing.volume editing.opened editing.payload.mtime := by
  obtain ⟨names, habs, haddr, hfind, hpath⟩ := editing.exists_names
  have hvolumes : ∀ volume ∈ kVolumes, IsPlain volume ∧ volume.length ≤ 3 ∧
      ∀ key ∈ [ascii "path", ascii "mtime", ascii "text"], volume ≠ key := by
    simp only [IsPlain]
    decide +kernel
  obtain ⟨hplain, hshort, hother⟩ := hvolumes _ editing.registered
  have hslash : ∃ rest, buildPath names = slash :: rest := by
    cases names with
    | nil => exact ⟨[], rfl⟩
    | cons name names => exact ⟨name ++ joined slash names, by simp [buildPath]⟩
  refine ⟨hplain, hshort, hother, ?_, ?_, ?_, rfl⟩
  · rw [opened, hpath]
    exact plain_buildPath haddr
  · rw [opened, hpath]
    exact hslash
  · rw [opened, hpath]
    exact haddr.length

/-- The body is taken for what the page has: only the modification time can speak against it. -/
theorem post_eq (habs : absolute editing.path = some names) :
    handlePostFileText editing.saving editing.explorer
        (readBody (kMaxTextBytes * 2 + 4096) (saveEditor editing.volume editing.opened guarded)) =
      if guarded = true ∧ 2 ^ 31 ≤ editing.payload.mtime then (.failed .conflict [], editing.explorer)
      else saveText editing.saving editing.explorer editing.volume (buildPath names)
        (Web.Json.kept editing.payload.text) := by
  obtain ⟨same, hsame, hfind, hlength, hlooks, -, hpath, -⟩ := handleGetFileText_eq_text editing.answered
  obtain rfl : same = names := Option.some.inj (hsame.symm.trans habs)
  obtain ⟨-, haddr⟩ := absolute_eq_some habs
  have haddressed := editing.addressed
  have hshorter : (Web.Json.kept editing.payload.text).length ≤ kMaxTextBytes :=
    (length_filter_le _ _).trans hlength
  have hwhole : readBody (kMaxTextBytes * 2 + 4096) (saveEditor editing.volume editing.opened guarded) =
      saveEditor editing.volume editing.opened guarded :=
    haddressed.readBody_saveEditor (lt_trans editing.precise (by decide))
      (fun byte hbyte ↦ (mem_filter.mp hbyte).2) hshorter
  have hdecoded : jsonDecodeStr (saveEditor editing.volume editing.opened guarded) (ascii "text") =
      some (Web.Json.kept editing.payload.text) :=
    haddressed.jsonDecodeStr_saveEditor (isUtf8_kept editing.encoded)
  have hparse : parseSave (saveEditor editing.volume editing.opened guarded) =
      .ok ⟨Web.Json.kept editing.payload.text,
        if guarded then min 2147483647 (editing.payload.mtime : Int) else -1⟩ := by
    have hfound : find (ascii "\"text\"") (saveEditor editing.volume editing.opened guarded) =
        some (needle (ascii "text") ++ colon :: stringified editing.opened.text [0x7D]) :=
      haddressed.find_text _
    have hfilled : (saveEditor editing.volume editing.opened guarded).isEmpty = false := rfl
    rw [parseSave, hfilled, if_neg Bool.false_ne_true, hfound, if_neg (some_ne_none _), hdecoded]
    dsimp only
    rw [if_neg (not_lt.mpr hshorter), looksLikeText_kept hlooks, haddressed.envelope_saveEditor,
      haddressed.jsonGetInt_envelope]
    rfl
  have hvolume : jsonGetStr (envelopeText editing.volume editing.opened guarded) (ascii "volume") =
      editing.volume :=
    jsonGetStr_stringMember (by decide) haddressed.volume_plain (find_volume _ _ _)
  have hname : jsonGetStr (envelopeText editing.volume editing.opened guarded) (ascii "path") =
      buildPath same := by
    rw [← hpath]
    exact jsonGetStr_stringMember (by decide) haddressed.path_plain haddressed.find_path
  have hroot : same ≠ [] := by
    rintro rfl
    rw [FileTree.find_nil] at hfind
    cases hfind
  have hstat : stat (editing.saving.fate 0) (editing.explorer.volumes editing.volume)
      (buildPath same) =
        .ok (entryOf (basename (buildPath same)) (.file editing.payload.text)) := by
    have hfate : editing.saving.fate 0 = {} := congrFun editing.calm 0
    rw [stat, within_of_absolute (by rw [hfate])
      (absolute_buildPath haddr), if_neg hroot, hfind]
  have hstamp : editing.saving.mtime editing.volume (shownPath (buildPath same)) = editing.payload.mtime := by
    rw [shownPath_eq (absolute_buildPath haddr), ← shownPath_eq habs]
    exact editing.unchanged
  rw [hwhole, handlePostFileText, hparse]
  dsimp only
  rw [haddressed.envelope_saveEditor, hvolume, hname, hstat, hstamp]
  dsimp only [entryOf]
  rw [if_neg Bool.false_ne_true]
  refine if_congr ?_ rfl rfl
  cases guarded with
  | false => simp
  | true =>
    simp only [if_true, true_and]
    omega

theorem survives_of_changesNothing (hnothing : editing.ChangesNothing guarded) :
    editing.Survives guarded := by
  obtain ⟨names, habs, haddr, hfind, -⟩ := editing.exists_names
  obtain ⟨opened, hshown, size, mtime, after, hsaved, hread⟩ := hnothing
  obtain rfl : editing.opened = opened := Option.some.inj (editing.showEditorFile_answer.symm.trans hshown)
  rw [editing.post_eq habs] at hsaved
  have hstamp : ¬(guarded = true ∧ 2 ^ 31 ≤ editing.payload.mtime) := by
    intro hconflict
    rw [if_pos hconflict] at hsaved
    cases hsaved
  rw [if_neg hstamp] at hsaved
  have hpath := absolute_buildPath haddr
  have hwritable : Writable editing.saving editing.explorer editing.volume names
      (Web.Json.kept editing.payload.text).length := by
    by_contra hrefused
    obtain ⟨failure, hfailed⟩ := saveText_refused editing.calm hpath hfind hrefused
    rw [hfailed] at hsaved
    cases hsaved
  obtain ⟨_, after', hwritten, hfile⟩ := saveText_written editing.calm hpath hfind hwritable
  obtain rfl : after' = after := (Prod.mk.inj (hwritten.symm.trans hsaved)).2
  -- what has been written is what is left of the text
  have hkept : Web.Json.kept editing.payload.text = editing.payload.text := by
    obtain ⟨same, hsame, hstored⟩ := openRead_eq_ok hread
    obtain rfl : same = names := Option.some.inj (hsame.symm.trans habs)
    exact Node.file.inj (Option.some.inj (hfile.symm.trans hstored))
  refine ⟨kept_eq_self_iff.mp hkept, fun hguarded ↦ ?_, fun same hsame ↦ ?_⟩
  · exact not_le.mp fun hlarge ↦ hstamp ⟨hguarded, hlarge⟩
  · obtain rfl : same = names := Option.some.inj (hsame.symm.trans habs)
    rwa [hkept] at hwritable

theorem changesNothing_of_survives (hsurvives : editing.Survives guarded) :
    editing.ChangesNothing guarded := by
  obtain ⟨names, habs, haddr, hfind, -⟩ := editing.exists_names
  have hkept : Web.Json.kept editing.payload.text = editing.payload.text :=
    kept_eq_self_iff.mpr hsurvives.kept
  have hpath := absolute_buildPath haddr
  have hwritable := hsurvives.writable names habs
  obtain ⟨mtime, after, hwritten, hfile⟩ := saveText_written editing.calm hpath hfind hwritable
  have hstamp : ¬(guarded = true ∧ 2 ^ 31 ≤ editing.payload.mtime) :=
    fun ⟨hguarded, hlarge⟩ ↦ absurd (hsurvives.stamp hguarded) (not_lt.mpr hlarge)
  have hroot : names ≠ [] := by
    rintro rfl
    rw [FileTree.find_nil] at hfind
    cases hfind
  refine ⟨editing.opened, editing.showEditorFile_answer, editing.payload.text.length, mtime, after, ?_, ?_⟩
  · rw [editing.post_eq habs, if_neg hstamp, hkept, hwritten]
  · rw [openRead, within_of_absolute rfl habs, if_neg hroot, hfile]

/-- **Opening and saving.** A text that is saved as it came is the same exactly if it has no control
character but tabs and line ends, if its modification time, where it is sent, is below 2^31, and if the
volume takes a text of this size. -/
theorem changesNothing_iff (guarded : Bool) : editing.ChangesNothing guarded ↔ editing.Survives guarded :=
  ⟨editing.survives_of_changesNothing, editing.changesNothing_of_survives⟩

end Editing

def formFeed : Editing where
  explorer.volumes _ :=
    (Volume.ofEntries [([ascii "a.txt"], .file (ascii "0123456789" ++ [0x0C]))] (by decide) (by simp)
      (by simp) (by decide)).toFileTree
  opening := {}
  saving.freeBytes _ := 1000000
  volume := ascii "fat"
  path := ascii "/a.txt"
  payload :=
    { volume := ascii "fat"
      path := ascii "/a.txt"
      text := ascii "0123456789" ++ [0x0C]
      size := 11
      mtime := 0 }
  answered := by decide +kernel
  registered := by decide
  named := by decide +kernel
  encoded := by decide +kernel
  calm := rfl
  unchanged := rfl
  precise := by decide

theorem formFeed_is_lost : formFeed.payload.mtime < 2 ^ 31 ∧
      Writable formFeed.saving formFeed.explorer formFeed.volume [ascii "a.txt"] 11 ∧
      ¬formFeed.ChangesNothing true := by
  refine ⟨by decide, ⟨by decide, by decide +kernel⟩, fun hnothing ↦ ?_⟩
  have hkept := (formFeed.survives_of_changesNothing hnothing).kept 0x0C (by decide)
  exact absurd hkept (by decide)

end DhcpServer.Files
