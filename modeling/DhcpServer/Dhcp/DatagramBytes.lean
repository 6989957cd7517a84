import DhcpServer.Dhcp.Runs

/-!
# What a message is judged by

The receive buffer is used again for every datagram, so what lies behind the bytes received is left
over from earlier ones. The name of the client is read from the received bytes only. The option walk
of `handleDhcpMessage` goes on to the end of the option field, and stays within the received bytes
exactly if their options are whole and an end marker follows them, or the field ends.
-/

namespace DhcpServer.Dhcp

open Library List Option

namespace ClientName

variable {len : Nat} {left right : Buffer}

theorem findOptionFrom_congr (hsame : SameBelow len left right) (code : UInt8) (fuel i : Nat) :
    findOptionFrom left len code fuel i = findOptionFrom right len code fuel i := by
  induction fuel generalizing i with
  | zero => rfl
  | succ fuel ih =>
    unfold findOptionFrom
    by_cases hi : i < len
    · rw [if_pos hi, if_pos hi, hsame i hi]
      by_cases hlength : len ≤ i + 1
      · simp only [hlength, if_true, ih]
      · rw [hsame (i + 1) (by omega)]
        simp only [ih]
    · rw [if_neg hi, if_neg hi]

theorem findOptionFrom_inside {code : UInt8} {fuel i : Nat} {value : OptionValue}
    (hfound : findOptionFrom left len code fuel i = some value) : value.start + value.length ≤ len := by
  induction fuel generalizing i with
  | zero => cases hfound
  | succ fuel ih =>
    unfold findOptionFrom at hfound
    dsimp only at hfound
    split_ifs at hfound with hi hpad hmarker hlength hend hcode
    · exact ih hfound
    · cases hfound
      exact not_lt.mp hend
    · exact ih hfound

section

variable (hsame : SameBelow len left right)
include hsame

theorem decodeDnsNameFrom_congr (fuel i : Nat) (out : Bytes) :
    decodeDnsNameFrom left len fuel i out = decodeDnsNameFrom right len fuel i out := by
  induction fuel generalizing i out with
  | zero => rfl
  | succ fuel ih =>
    unfold decodeDnsNameFrom
    by_cases hi : i < len
    · simp only [if_pos hi, hsame i hi]
      by_cases hlabel : 63 < (right i).toNat ∨ len < i + 1 + (right i).toNat
      · simp only [hlabel, if_true]
      · have hslice : slice left (i + 1) (right i).toNat = slice right (i + 1) (right i).toNat :=
          hsame.slice_eq (by omega)
        simp only [hlabel, if_false, hslice, ih]
    · rw [if_neg hi, if_neg hi]

theorem hostNameOption_congr :
    hostNameOption left len = hostNameOption right len := by
  unfold hostNameOption findOption
  rw [findOptionFrom_congr hsame]
  cases hfound : findOptionFrom right len kOptHostName len 0 with
  | none => rfl
  | some value =>
    dsimp only
    rw [hsame.slice_eq (findOptionFrom_inside hfound)]

theorem fqdnOption_congr :
    fqdnOption left len = fqdnOption right len := by
  unfold fqdnOption findOption
  rw [findOptionFrom_congr hsame]
  cases hfound : findOptionFrom right len kOptFqdn len 0 with
  | none => rfl
  | some value =>
    have hinside := findOptionFrom_inside hfound
    dsimp only
    by_cases hshort : value.length < 3
    · rw [if_pos hshort, if_pos hshort]
    · have hname := (hsame.mono hinside).shift (value.start + 3)
      have hlength : value.start + value.length - (value.start + 3) = value.length - 3 := by omega
      rw [hlength] at hname
      rw [hsame value.start (by omega), decodeDnsName, decodeDnsName, decodeDnsNameFrom_congr hname,
        hname.slice_eq (by omega)]

theorem fromOptions_congr :
    fromOptions left len = fromOptions right len := by
  rw [fromOptions, fromOptions, hostNameOption_congr hsame, fqdnOption_congr hsame]

end

/-! ### The walk of `findOption` -/

/-- `findOption` on its field, where a read at or behind the end comes to nothing. -/
def findOptionRead (field : Bytes) (code : UInt8) : (fuel i : Nat) → Option (Option OptionValue)
  | 0, _ => none
  | fuel + 1, i =>
    if i < field.length then do
      let opt ← field[i]?
      if opt = kOptPad then findOptionRead field code fuel (i + 1)
      else if opt = kOptEnd then some none
      else if field.length ≤ i + 1 then some none
      else
        let optLen := (← field[i + 1]?).toNat
        if field.length < i + 2 + optLen then some none
        else if opt = code then some (some ⟨i + 2, optLen⟩)
        else findOptionRead field code fuel (i + 2 + optLen)
    else some none

inductive Item
  | pad
  | option (code : UInt8) (value : Bytes) (coded : code ≠ kOptPad ∧ code ≠ kOptEnd)
    (short : value.length < 256)

def Item.written : Item → Bytes
  | .pad => [kOptPad]
  | .option code value _ _ => code :: UInt8.ofNat value.length :: value

/-- An end marker, or an option that does not fit. -/
def Stops : Bytes → Prop
  | [] => True
  | [code] => code ≠ kOptPad
  | code :: length :: rest => code = kOptEnd ∨ code ≠ kOptPad ∧ rest.length < length.toNat

/-- `items` is the well-formed prefix of the field. -/
def WellFormedPrefix (field : Bytes) (items : List Item) : Prop :=
  ∃ rest, field = items.flatMap Item.written ++ rest ∧ Stops rest

def firstValue (code : UInt8) : List Item → Option Bytes
  | [] => none
  | .pad :: items => firstValue code items
  | .option other value _ _ :: items => if other = code then some value else firstValue code items

theorem exists_wellFormedPrefix (field : Bytes) : ∃ items, WellFormedPrefix field items := by
  induction hlength : field.length using Nat.strong_induction_on generalizing field with
  | _ count ih =>
    have hcons (item : Item) (rest : Bytes) (hfield : field = item.written ++ rest)
        (hitem : 0 < item.written.length) : ∃ items, WellFormedPrefix field items := by
      subst hfield
      rw [length_append] at hlength
      obtain ⟨items, behind, hrest, hstops⟩ := ih rest.length (by omega) rest rfl
      exact ⟨item :: items, behind, by simp [← hrest], hstops⟩
    match field with
    | [] => exact ⟨[], [], rfl, trivial⟩
    | [code] =>
      by_cases hpad : code = kOptPad
      · exact hcons .pad [] (by simp [Item.written, hpad]) Nat.one_pos
      · exact ⟨[], [code], rfl, hpad⟩
    | code :: length :: rest =>
      by_cases hpad : code = kOptPad
      · exact hcons .pad (length :: rest) (by simp [Item.written, hpad]) Nat.one_pos
      by_cases hmarker : code = kOptEnd
      · exact ⟨[], _, rfl, .inl hmarker⟩
      by_cases hfits : rest.length < length.toNat
      · exact ⟨[], _, rfl, .inr ⟨hpad, hfits⟩⟩
      have htake : (rest.take length.toNat).length = length.toNat := by simp; omega
      refine hcons (.option code (rest.take length.toNat) ⟨hpad, hmarker⟩ (by
        rw [htake]
        exact length.toNat_lt)) (rest.drop length.toNat) ?_ (by simp [Item.written])
      rw [Item.written, htake, UInt8.ofNat_toNat, cons_append, cons_append, take_append_drop]

section Walk

variable {options : Buffer} {code : UInt8} {fuel i : Nat}

theorem read_slice (hi : i < len) : (slice options 0 len)[i]? = some (options i) := by
  simp [slice, hi]

/-- With enough turns the walk ends, and it has read nothing behind the field. -/
theorem findOptionRead_eq (hfuel : len ≤ i + fuel) : findOptionRead (slice options 0 len) code (fuel + 1) i =
    some (findOptionFrom options len code fuel i) := by
  induction fuel generalizing i with
  | zero =>
    rw [findOptionRead, length_slice, if_neg (by omega)]
    rfl
  | succ fuel ih =>
    rw [findOptionRead, findOptionFrom, length_slice]
    by_cases hi : i < len
    · rw [if_pos hi, if_pos hi, read_slice hi]
      dsimp only [bind_eq_bind, bind_some]
      by_cases hlength : len ≤ i + 1
      · rw [if_pos hlength, ih (by omega)]
        simp only [hlength, if_true]
        split_ifs <;> rfl
      · rw [read_slice (by omega), ih (by omega)]
        dsimp only [bind_some]
        rw [ih (by omega)]
        simp only [hlength, if_false]
        split_ifs <;> rfl
    · rw [if_neg hi, if_neg hi]

theorem slice_eq_cons {byte : UInt8} {rest : Bytes} (hslice : slice options i (len - i) = byte :: rest) :
    i < len ∧ options i = byte ∧ slice options (i + 1) (len - (i + 1)) = rest := by
  have hi : i < len := by
    have hlength := congrArg List.length hslice
    rw [length_slice, length_cons] at hlength
    omega
  have hcount : len - i = len - (i + 1) + 1 := by omega
  rw [hcount, slice_succ] at hslice
  exact ⟨hi, cons.inj hslice⟩

theorem findOptionFrom_stops {rest : Bytes} (hrest : slice options i (len - i) = rest) (hstops : Stops rest) :
    findOptionFrom options len code fuel i = none := by
  cases fuel with
  | zero => rfl
  | succ fuel =>
    by_cases hi : i < len
    · rw [findOptionFrom, if_pos hi]
      match rest with
      | [] =>
        have hlength := congrArg List.length hrest
        rw [length_slice, length_nil] at hlength
        omega
      | [opt] =>
        obtain ⟨-, rfl, hnone⟩ := slice_eq_cons hrest
        have hlength := congrArg List.length hnone
        rw [length_slice, length_nil] at hlength
        have hlast : len ≤ i + 1 := by omega
        simp [show options i ≠ kOptPad from hstops, hlast]
      | opt :: length :: rest =>
        obtain ⟨-, rfl, hmore⟩ := slice_eq_cons hrest
        obtain ⟨hbehind, rfl, hvalue⟩ := slice_eq_cons hmore
        have hlength := congrArg List.length hvalue
        rw [length_slice] at hlength
        rcases hstops with hmarker | ⟨hpad, hshort⟩
        · simp [hmarker, show kOptEnd ≠ kOptPad by decide]
        · have hlong : len < i + 2 + (options (i + 1)).toNat := by omega
          simp [hpad, hlong]
    · rw [findOptionFrom, if_neg hi]

/-- The walk from an item on; the induction is on the items that are left. -/
theorem findOptionFrom_items {items : List Item} {rest : Bytes} (hfuel : len ≤ i + fuel)
    (hslice : slice options i (len - i) = items.flatMap Item.written ++ rest) (hstops : Stops rest) :
    (findOptionFrom options len code fuel i).map (fun found ↦ slice options found.start found.length) =
      firstValue code items := by
  induction items generalizing i fuel with
  | nil => rw [findOptionFrom_stops hslice hstops, firstValue, map_none]
  | cons item items ih =>
    cases fuel with
    | zero =>
      have hlength := congrArg List.length hslice
      cases item <;> simp [length_slice, Item.written] at hlength <;> omega
    | succ fuel =>
      cases item with
      | pad =>
        obtain ⟨hi, hpad, hrest⟩ := slice_eq_cons hslice
        rw [findOptionFrom, if_pos hi]
        simp only [hpad, if_true]
        exact ih (by omega) hrest
      | option other value coded short =>
        have hwritten : (Item.option other value coded short :: items).flatMap Item.written ++ rest =
            other :: UInt8.ofNat value.length :: (value ++ (items.flatMap Item.written ++ rest)) := by
          simp [Item.written]
        rw [hwritten] at hslice
        obtain ⟨hi, rfl, hmore⟩ := slice_eq_cons hslice
        obtain ⟨hbehind, hlength, hrest⟩ := slice_eq_cons hmore
        have hcount : (options (i + 1)).toNat = value.length := by
          rw [hlength, UInt8.toNat_ofNat_of_lt' short]
        have hwhole := congrArg List.length hrest
        rw [length_slice, length_append] at hwhole
        have hfits : ¬ len < i + 2 + value.length := by omega
        have hlast : ¬ len ≤ i + 1 := by omega
        have hvalue : slice options (i + 2) value.length = value := by
          have htake := congrArg (List.take value.length) hrest
          rw [take_left, slice, ← map_take, take_range, Nat.min_eq_left (by omega)] at htake
          exact htake
        have hbehindValue : slice options (i + 2 + value.length) (len - (i + 2 + value.length)) =
            items.flatMap Item.written ++ rest := by
          have hdrop := congrArg (List.drop value.length) hrest
          rw [drop_left, drop_slice] at hdrop
          rw [← hdrop]
          congr 1
          omega
        rw [findOptionFrom, if_pos hi]
        simp only [coded.1, coded.2, hcount, hlast, hfits, if_false, firstValue]
        split_ifs
        · rw [map_some, hvalue]
        · exact ih (by omega) hbehindValue

end Walk

/-- The walk ends within the field and finds the first option of the well-formed prefix. -/
theorem findOption_finds_first (options : Buffer) (len : Nat) (code : UInt8) :
    findOptionRead (slice options 0 len) code (len + 1) 0 = some (findOption options len code) ∧
      (∃ items, WellFormedPrefix (slice options 0 len) items) ∧
      ∀ items, WellFormedPrefix (slice options 0 len) items →
        (findOption options len code).map (fun found ↦ slice options found.start found.length) =
          firstValue code items := by
  refine ⟨findOptionRead_eq (by omega), exists_wellFormedPrefix _, ?_⟩
  rintro items ⟨rest, hfield, hstops⟩
  exact findOptionFrom_items (by omega) hfield hstops

end ClientName

/-! ## The option walk -/

/-- The offsets of the value bytes that the walk copies from an option. -/
def valueReads (code length : UInt8) (offset : Nat) : List Nat :=
  if code = kOptMsgType ∧ length = 1 then [offset]
  else if code = kOptReqAddr ∧ length = 4 then List.range' offset 4
  else if code = kOptServerId ∧ length = 4 then List.range' offset 4
  else []

/-- The offsets in the option field of the bytes that the walk takes from options. -/
def optionReads (options : Buffer) : (fuel offset : Nat) → List Nat
  | 0, _ => []
  | fuel + 1, offset =>
    if offset < kOptionsBytes then
      let code := options offset
      if code = kOptEnd then [offset]
      else if code = kOptPad then offset :: optionReads options fuel (offset + 1)
      else
        let length := options (offset + 1)
        offset :: (offset + 1) :: valueReads code length (offset + 2) ++
          optionReads options fuel (offset + (length.toNat + 2))
    else []

def neededBytes (code length : UInt8) : Nat := (valueReads code length 0).length

/-- Received option bytes from an offset on: whole options up to an end marker or to the end of the
option field. Of an option whose value is not used only the code and the length count. -/
inductive Terminated : Nat → Bytes → Prop
  | field {offset : Nat} {bytes : Bytes} (hend : kOptionsBytes ≤ offset) : Terminated offset bytes
  | marker {offset : Nat} {rest : Bytes} : Terminated offset (kOptEnd :: rest)
  | pad {offset : Nat} {rest : Bytes} (hrest : Terminated (offset + 1) rest) :
      Terminated offset (kOptPad :: rest)
  | option {offset : Nat} {code length : UInt8} {rest : Bytes} (hmarker : code ≠ kOptEnd)
      (hpad : code ≠ kOptPad) (hvalue : neededBytes code length ≤ rest.length)
      (hrest : Terminated (offset + (length.toNat + 2)) (rest.drop length.toNat)) :
      Terminated offset (code :: length :: rest)

def Datagram.options (datagram : Datagram) : Buffer := fun i ↦ datagram.buf (kOptionsOffset + i)

def Datagram.optionBytes (datagram : Datagram) : Bytes :=
  slice datagram.buf kOptionsOffset (datagram.len - kOptionsOffset)

def Datagram.walked (datagram : Datagram) : Prop :=
  kMinMsgSize ≤ datagram.len ∧ byteSwap (readU32 datagram.buf 236) = kMagicCookie

/-- A message is judged by the bytes received, and the walk takes no others. -/
structure Datagram.JudgedByOwnBytes (datagram : Datagram) : Prop where
  same : ∀ other : Buffer, SameBelow datagram.len other datagram.buf →
    ∀ fuel cfg net state, handleDhcpMessage fuel cfg net ⟨other, datagram.len⟩ state =
      handleDhcpMessage fuel cfg net datagram state
  inside : datagram.walked → ∀ offset ∈ optionReads datagram.options kOptionsBytes 0,
    kOptionsOffset + offset < datagram.len

def takeOption (options : Buffer) (code length : UInt8) (offset : Nat) (parsed : ParsedOptions) :
    ParsedOptions :=
  if code = kOptMsgType ∧ length = 1 then { parsed with msgType := options offset }
  else if code = kOptReqAddr ∧ length = 4 then { parsed with requestedIp := readU32 options offset }
  else if code = kOptServerId ∧ length = 4 then { parsed with serverId := readU32 options offset }
  else parsed

section Walk

variable {options other : Buffer} {fuel offset received : Nat} {parsed : ParsedOptions}

theorem walkOptions_field (hend : kOptionsBytes ≤ offset) :
    walkOptions options fuel offset parsed = parsed := by
  cases fuel with
  | zero => rfl
  | succ fuel => simp [walkOptions, not_lt.mpr hend]

theorem walkOptions_marker (hmarker : options offset = kOptEnd) :
    walkOptions options fuel offset parsed = parsed := by
  cases fuel with
  | zero => rfl
  | succ fuel => simp [walkOptions, hmarker]

theorem walkOptions_pad (hfield : offset < kOptionsBytes) (hpad : options offset = kOptPad) :
    walkOptions options (fuel + 1) offset parsed = walkOptions options fuel (offset + 1) parsed := by
  have hmarker : kOptPad ≠ kOptEnd := by decide
  simp [walkOptions, hfield, hpad, hmarker]

theorem walkOptions_option (hfield : offset < kOptionsBytes) (hmarker : options offset ≠ kOptEnd)
    (hpad : options offset ≠ kOptPad) :
    walkOptions options (fuel + 1) offset parsed =
      walkOptions options fuel (offset + ((options (offset + 1)).toNat + 2))
        (takeOption options (options offset) (options (offset + 1)) (offset + 2) parsed) := by
  simp only [walkOptions, takeOption, hfield, hmarker, hpad, ne_eq, not_false_eq_true, and_self,
    if_true, if_false]

theorem optionReads_field (hend : kOptionsBytes ≤ offset) : optionReads options fuel offset = [] := by
  cases fuel with
  | zero => rfl
  | succ fuel => rw [optionReads, if_neg (not_lt.mpr hend)]

theorem optionReads_marker (hfield : offset < kOptionsBytes) (hmarker : options offset = kOptEnd) :
    optionReads options (fuel + 1) offset = [offset] := by
  simp [optionReads, hfield, hmarker]

theorem optionReads_pad (hfield : offset < kOptionsBytes) (hpad : options offset = kOptPad) :
    optionReads options (fuel + 1) offset = offset :: optionReads options fuel (offset + 1) := by
  have hmarker : kOptPad ≠ kOptEnd := by decide
  simp [optionReads, hfield, hpad, hmarker]

theorem optionReads_option (hfield : offset < kOptionsBytes) (hmarker : options offset ≠ kOptEnd)
    (hpad : options offset ≠ kOptPad) :
    optionReads options (fuel + 1) offset =
      offset :: (offset + 1) ::
        (valueReads (options offset) (options (offset + 1)) (offset + 2) ++
          optionReads options fuel (offset + ((options (offset + 1)).toNat + 2))) := by
  simp [optionReads, hfield, hmarker, hpad]

theorem takeOption_congr {code length : UInt8}
    (hsame : ∀ read ∈ valueReads code length offset, other read = options read) :
    takeOption other code length offset parsed = takeOption options code length offset parsed := by
  unfold valueReads at hsame
  unfold takeOption
  have hword (hword : ∀ read ∈ List.range' offset 4, other read = options read) :
      readU32 other offset = readU32 options offset := by
    have hread (i : Nat) (hi : i < 4) : other (offset + i) = options (offset + i) :=
      hword (offset + i) (by rw [mem_range'_1]; omega)
    rw [readU32, readU32, hread 1 (by omega), hread 2 (by omega), hread 3 (by omega)]
    rw [show other offset = options offset from hread 0 (by omega)]
  split_ifs at hsame ⊢
  · rw [hsame offset mem_cons_self]
  · rw [hword hsame]
  · rw [hword hsame]
  · rfl

theorem walkOptions_congr (hsame : ∀ read ∈ optionReads options fuel offset, other read = options read) :
    walkOptions other fuel offset parsed = walkOptions options fuel offset parsed := by
  induction fuel generalizing offset parsed with
  | zero => rfl
  | succ fuel ih =>
    by_cases hfield : kOptionsBytes ≤ offset
    · rw [walkOptions_field hfield, walkOptions_field hfield]
    rw [not_le] at hfield
    by_cases hmarker : options offset = kOptEnd
    · rw [optionReads_marker hfield hmarker, forall_mem_singleton] at hsame
      rw [walkOptions_marker hmarker, walkOptions_marker (hsame.trans hmarker)]
    by_cases hpad : options offset = kOptPad
    · rw [optionReads_pad hfield hpad, forall_mem_cons] at hsame
      rw [walkOptions_pad hfield hpad, walkOptions_pad hfield (hsame.1.trans hpad)]
      exact ih hsame.2
    · rw [optionReads_option hfield hmarker hpad, forall_mem_cons, forall_mem_cons,
        forall_mem_append] at hsame
      obtain ⟨hcode, hlength, hvalue, hrest⟩ := hsame
      rw [walkOptions_option hfield hmarker hpad,
        walkOptions_option hfield (hcode ▸ hmarker) (hcode ▸ hpad), hcode, hlength,
        takeOption_congr hvalue]
      exact ih hrest

theorem valueReads_eq (code length : UInt8) (offset : Nat) :
    valueReads code length offset = List.range' offset (neededBytes code length) := by
  unfold neededBytes valueReads
  split_ifs <;> rfl

theorem valueReads_inside {code length : UInt8} :
    (∀ read ∈ valueReads code length offset, read < received) ↔
      neededBytes code length = 0 ∨ offset + neededBytes code length ≤ received := by
  rw [valueReads_eq]
  simp only [mem_range'_1]
  constructor
  · intro hall
    by_contra hout
    have hlast := hall (offset + neededBytes code length - 1) (by omega)
    omega
  · rintro hinside read hread
    omega

section

variable (hfield : offset < kOptionsBytes)
include hfield

theorem terminated_nil_iff : ¬Terminated offset [] := by
  intro hterminated
  cases hterminated with
  | field hend => omega

theorem terminated_pad_iff {rest : Bytes} :
    Terminated offset (kOptPad :: rest) ↔ Terminated (offset + 1) rest := by
  constructor
  · intro hterminated
    cases hterminated with
    | field hend => omega
    | pad hrest => exact hrest
    | option _ hpad => exact absurd rfl hpad
  · exact .pad

theorem terminated_option_iff {code length : UInt8} {rest : Bytes}
    (hmarker : code ≠ kOptEnd) (hpad : code ≠ kOptPad) :
    Terminated offset (code :: length :: rest) ↔ neededBytes code length ≤ rest.length ∧
        Terminated (offset + (length.toNat + 2)) (rest.drop length.toNat) := by
  constructor
  · intro hterminated
    cases hterminated with
    | field hend => omega
    | marker => exact absurd rfl hmarker
    | pad => exact absurd rfl hpad
    | option _ _ hvalue hrest => exact ⟨hvalue, hrest⟩
  · rintro ⟨hvalue, hrest⟩
    exact .option hmarker hpad hvalue hrest

theorem not_terminated_singleton {code : UInt8}
    (hmarker : code ≠ kOptEnd) (hpad : code ≠ kOptPad) : ¬Terminated offset [code] := by
  intro hterminated
  cases hterminated with
  | field hend => omega
  | marker => exact hmarker rfl
  | pad => exact hpad rfl

end

theorem optionReads_inside_iff (hfuel : kOptionsBytes ≤ offset + fuel) :
    (∀ read ∈ optionReads options fuel offset, read < received) ↔
      Terminated offset (slice options offset (received - offset)) := by
  induction fuel generalizing offset with
  | zero =>
    have hfield : kOptionsBytes ≤ offset := hfuel
    exact iff_of_true (by simp [optionReads]) (.field hfield)
  | succ fuel ih =>
    by_cases hfield : kOptionsBytes ≤ offset
    · rw [optionReads_field hfield]
      exact iff_of_true (by simp) (.field hfield)
    rw [not_le] at hfield
    by_cases hempty : received ≤ offset
    · have hslice : slice options offset (received - offset) = [] := by
        rw [Nat.sub_eq_zero_of_le hempty]
        rfl
      rw [hslice]
      refine iff_of_false (fun hall ↦ ?_) (terminated_nil_iff hfield)
      have hfirst : offset ∈ optionReads options (fuel + 1) offset := by
        unfold optionReads
        rw [if_pos hfield]
        dsimp only
        split_ifs <;> simp
      exact absurd (hall offset hfirst) (not_lt.mpr hempty)
    obtain ⟨count, hcount⟩ := Nat.exists_eq_add_of_lt (not_le.mp hempty)
    have hcons : slice options offset (received - offset) =
        options offset :: slice options (offset + 1) (received - (offset + 1)) := by
      rw [show received - offset = received - (offset + 1) + 1 by omega, slice_succ]
    rw [hcons]
    by_cases hmarker : options offset = kOptEnd
    · rw [optionReads_marker hfield hmarker, forall_mem_singleton, hmarker]
      exact iff_of_true (not_le.mp hempty) .marker
    by_cases hpad : options offset = kOptPad
    · rw [optionReads_pad hfield hpad, forall_mem_cons, hpad, terminated_pad_iff hfield,
        and_iff_right (not_le.mp hempty)]
      exact ih (by omega)
    · rw [optionReads_option hfield hmarker hpad, forall_mem_cons, forall_mem_cons,
        forall_mem_append, valueReads_inside, ih (by omega), and_iff_right (not_le.mp hempty)]
      by_cases hlength : offset + 1 < received
      · rw [show received - (offset + 1) = received - (offset + 2) + 1 by omega, slice_succ,
          terminated_option_iff hfield hmarker hpad, length_slice, drop_slice,
          and_iff_right hlength, Nat.sub_sub]
        have hnext : offset + 1 + 1 + (options (offset + 1)).toNat =
          offset + ((options (offset + 1)).toNat + 2) := by omega
        rw [hnext]
        exact and_congr_left fun _ ↦ by omega
      · have hnil : slice options (offset + 1) (received - (offset + 1)) = [] := by
          rw [Nat.sub_eq_zero_of_le (not_lt.mp hlength)]
          rfl
        rw [hnil]
        exact iff_of_false (fun hall ↦ hlength hall.1) (not_terminated_singleton hfield hmarker hpad)

end Walk

theorem slice_options (datagram : Datagram) :
    datagram.optionBytes = slice datagram.options 0 (datagram.len - kOptionsOffset) := by
  simp [Datagram.optionBytes, slice, Datagram.options]

theorem parseMessage_congr {datagram : Datagram} {other : Buffer}
    (hsame : SameBelow datagram.len other datagram.buf)
    (hinside : datagram.walked → ∀ offset ∈ optionReads datagram.options kOptionsBytes 0,
      kOptionsOffset + offset < datagram.len) :
    parseMessage ⟨other, datagram.len⟩ = parseMessage datagram := by
  unfold parseMessage
  by_cases hshort : datagram.len < kMinMsgSize
  · rw [if_pos hshort, if_pos hshort]
  have hheader : kMinMsgSize ≤ datagram.len := not_lt.mp hshort
  have hword (start : Nat) (hstart : start + 4 ≤ kMinMsgSize) :
      readU32 other start = readU32 datagram.buf start := hsame.readU32_eq (hstart.trans hheader)
  rw [if_neg hshort, if_neg hshort]
  dsimp only
  rw [hword 236 (by decide)]
  by_cases hcookie : byteSwap (readU32 datagram.buf 236) = kMagicCookie
  · have hwalk : walkOptions (fun i ↦ other (kOptionsOffset + i)) kOptionsBytes 0 {} =
        walkOptions (fun i ↦ datagram.buf (kOptionsOffset + i)) kOptionsBytes 0 {} := by
      apply walkOptions_congr
      intro read hread
      exact hsame _ (hinside ⟨hheader, hcookie⟩ read hread)
    have hname := ClientName.fromOptions_congr (hsame.shift kOptionsOffset)
    have hbytes : (fun i : Fin 6 ↦ other (28 + i.val)) = fun i : Fin 6 ↦ datagram.buf (28 + i.val) := by
      funext i
      have hlt : 28 + i.val < kMinMsgSize := by
        have hi := i.isLt
        simp only [kMinMsgSize]
        omega
      exact hsame _ (hlt.trans_le hheader)
    have hchaddr : Datagram.chaddr ⟨other, datagram.len⟩ = datagram.chaddr := congrArg Vector.ofFn hbytes
    rw [hwalk, hname, hchaddr, hword 4 (by decide), hword 12 (by decide), hword 24 (by decide)]
  · rw [if_pos hcookie, if_pos hcookie]

theorem handleDhcpMessage_congr {datagram other : Datagram}
    (hparse : parseMessage other = parseMessage datagram) (fuel : Nat) (cfg : Config) (net : Net)
    (state : State) :
    handleDhcpMessage fuel cfg net other state = handleDhcpMessage fuel cfg net datagram state := by
  rw [handleDhcpMessage, handleDhcpMessage, admittedMessage, admittedMessage, hparse]

/-- A message is judged by its own bytes exactly if its options are terminated within them. -/
theorem judgedByOwnBytes_iff (datagram : Datagram) :
    datagram.JudgedByOwnBytes ↔ (datagram.walked → Terminated 0 datagram.optionBytes) := by
  have hreads (hwalked : datagram.walked) :
      (∀ offset ∈ optionReads datagram.options kOptionsBytes 0, kOptionsOffset + offset < datagram.len) ↔
        Terminated 0 datagram.optionBytes := by
    have hheader : kOptionsOffset ≤ datagram.len := hwalked.1
    have hiff : (∀ offset ∈ optionReads datagram.options kOptionsBytes 0,
        offset < datagram.len - kOptionsOffset) ↔
        Terminated 0 (slice datagram.options 0 (datagram.len - kOptionsOffset - 0)) :=
      optionReads_inside_iff (Nat.zero_add kOptionsBytes).ge
    rw [Nat.sub_zero] at hiff
    rw [slice_options, ← hiff]
    exact forall_congr' fun offset ↦ imp_congr_right fun _ ↦ by omega
  constructor
  · exact fun hjudged hwalked ↦ (hreads hwalked).mp (hjudged.inside hwalked)
  · intro hterminated
    have hinside (hwalked : datagram.walked) := (hreads hwalked).mpr (hterminated hwalked)
    exact ⟨fun other hsame ↦ handleDhcpMessage_congr (parseMessage_congr hsame hinside), hinside⟩

/-- The options of an earlier REQUEST are taken for those of a message without any. -/
theorem leftOver_request_answered :
    ¬Datagram.JudgedByOwnBytes ⟨(clientDatagram kDhcpRequest macA 0 []).buf, 240⟩ := by
  intro hjudged
  have hsame : SameBelow 240 (clientDatagram kDhcpOffer macA 0 []).buf
      (clientDatagram kDhcpRequest macA 0 []).buf := by
    have hall : ∀ i : Fin 240, (clientDatagram kDhcpOffer macA 0 []).buf i =
        (clientDatagram kDhcpRequest macA 0 []).buf i := by decide +kernel
    exact fun i hi ↦ hall ⟨i, hi⟩
  have hequal := hjudged.same (clientDatagram kDhcpOffer macA 0 []).buf hsame 1 homeConfig silentNet
    (.start 0)
  have hreplies := congrArg (Option.map fun outcome ↦ outcome.2.length) hequal
  revert hreplies
  decide +kernel

end DhcpServer.Dhcp
