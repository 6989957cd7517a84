import DhcpServer.Core.IpText
import DhcpServer.Library.Masks
import DhcpServer.Library.Trim

/-!
# Subnet arithmetic

`core/Subnet.cpp`. Addresses and masks are words in host order. A text is read as a dotted quad; a mask
is valid when its set bits are the highest ones.
-/

namespace DhcpServer.Core.Subnet

open Library AddressText List

/-! ## The source's functions -/

def kIpv4Octets : Nat := 4
def kOctetBits : Nat := 8
def kIpv4Bits : Nat := 32
def kOctetMax : Nat := 255
def kMaxOctetDigits : Nat := 3
def kDecimalBase : Nat := 10
def kLowByteMask : UInt32 := 0xFF
def kIp4TextLen : Nat := 16

def isSpace (c : UInt8) : Bool := c == 0x20 || c == 0x09

/-- The digits of one part: its value, how many they are and what stands behind them. -/
def digitLoop : Bytes → Nat → Nat → Option (Nat × Nat × Bytes)
  | [], value, digits => some (value, digits, [])
  | c :: text, value, digits =>
    if 0x30 ≤ c ∧ c ≤ 0x39 then
      let value := value * kDecimalBase + (c.toNat - 0x30)
      let digits := digits + 1
      if kMaxOctetDigits < digits ∨ kOctetMax < value then none else digitLoop text value digits
    else some (value, digits, c :: text)

theorem length_digitLoop {text rest : Bytes} {value digits number count : Nat}
    (hloop : digitLoop text value digits = some (number, count, rest)) : rest.length ≤ text.length := by
  induction text generalizing value digits with
  | nil =>
    cases hloop
    exact Nat.le_refl _
  | cons c text ih =>
    rw [digitLoop] at hloop
    dsimp only at hloop
    split_ifs at hloop
    · exact Nat.le_succ_of_le (ih hloop)
    · cases hloop
      exact Nat.le_refl _

def placeOctet (addr : UInt32) (part value : Nat) : UInt32 :=
  addr ||| UInt32.ofNat value <<< UInt32.ofNat (kOctetBits * (kIpv4Octets - 1 - part))

def partLoop (text : Bytes) (addr : UInt32) (part : Nat) : Option (UInt32 × Nat) :=
  if text = [] then some (addr, part)
  else
    match hloop : digitLoop text 0 0 with
    | none => none
    | some (value, digits, rest) =>
      if digits = 0 then none
      else if kIpv4Octets ≤ part then none
      else
        let addr := placeOctet addr part value
        match rest with
        | [] => some (addr, part + 1)
        | c :: rest =>
          if c ≠ dot then none else if rest = [] then none else partLoop rest addr (part + 1)
termination_by text.length
decreasing_by
  have hlength := length_digitLoop hloop
  rw [length_cons] at hlength
  exact hlength

def parseIp4 (text : Bytes) : Option UInt32 :=
  let text := trimBy isSpace text
  if text = [] then none
  else
    match partLoop text 0 0 with
    | none => none
    | some (addr, part) => if part ≠ kIpv4Octets then none else some addr

def isValidMask (mask : UInt32) : Bool :=
  let inv := ~~~mask
  inv &&& (inv + 1) == 0

def network (addr mask : UInt32) : UInt32 := addr &&& mask

def contains (net mask addr : UInt32) : Bool :=
  if mask == 0 || !isValidMask mask then false else addr &&& mask == net &&& mask

/-- The loop of `hostBits`. -/
def hostLoop (m : UInt32) (bits : Nat) : Nat :=
  if m ≠ 0 ∧ m &&& 1 = 0 then hostLoop (m >>> 1) (bits + 1) else bits
termination_by m.toNat
decreasing_by
  rename_i hm
  have hpositive : m.toNat ≠ 0 := fun hzero ↦ hm.1 (UInt32.toNat_inj.mp hzero)
  rw [UInt32.toNat_shiftRight]
  change m.toNat >>> 1 < m.toNat
  rw [Nat.shiftRight_eq_div_pow]
  omega

def hostBits (mask : UInt32) : Nat := hostLoop mask 0

def maskFromPrefix (prefixLen : Int) : UInt32 :=
  if prefixLen < 0 ∨ (kIpv4Bits : Int) < prefixLen then 0
  else if prefixLen = 0 then 0
  else 0xFFFFFFFF <<< UInt32.ofNat (kIpv4Bits - prefixLen.toNat)

def prefixLength (mask : UInt32) : Int := if !isValidMask mask then -1 else kIpv4Bits - hostBits mask

/-- An octet of an address, written as `"%u"`. -/
def octetText (addr : UInt32) (places : UInt32) : Bytes :=
  numeral 10 ((addr >>> places) &&& kLowByteMask).toNat

def toString (addr : UInt32) : Bytes :=
  IpText.snprintf kIp4TextLen
    ([dot].intercalate [octetText addr 24, octetText addr 16, octetText addr 8, octetText addr 0])

/-! ## Dotted quads -/

/-- One to three digits that make at most 255. -/
def IsOctet (piece : Bytes) (number : Nat) : Prop :=
  piece.length ≤ 3 ∧ readNumeral 10 piece = some number ∧ number ≤ 255

/-- The numbers of four octets with single dots between them, the highest first. -/
def IsDotted (text : Bytes) (numbers : List Nat) : Prop :=
  ∃ pieces, List.Forall₂ IsOctet pieces numbers ∧ numbers.length = 4 ∧ text = [dot].intercalate pieces

def placeOctets (addr : UInt32) : Nat → List Nat → UInt32
  | _, [] => addr
  | part, number :: numbers => placeOctets (placeOctet addr part number) (part + 1) numbers

variable {text piece rest : Bytes} {value digits number count part : Nat} {addr : UInt32}

def NoDigitFirst (rest : Bytes) : Prop := ∀ c ∈ rest.head?, ¬(0x30 ≤ c ∧ c ≤ 0x39)

theorem digitLoop_eq_some_iff : digitLoop text value digits = some (number, count, rest) ↔
    ∃ piece, text = piece ++ rest ∧ NoDigitFirst rest ∧ piece.foldlM (readDigit 10) value = some number ∧
      count = digits + piece.length ∧ (piece ≠ [] → count ≤ 3 ∧ number ≤ 255) := by
  induction text generalizing value digits with
  | nil =>
    constructor
    · intro hloop
      cases hloop
      exact ⟨[], rfl, by simp [NoDigitFirst], rfl, rfl, fun hne ↦ absurd rfl hne⟩
    · rintro ⟨piece, htext, -, hread, hcount, -⟩
      obtain ⟨rfl, rfl⟩ := append_eq_nil_iff.mp htext.symm
      cases hread
      rw [hcount]
      rfl
  | cons c text ih =>
    rw [digitLoop]
    dsimp only
    by_cases hdigit : 0x30 ≤ c ∧ c ≤ 0x39
    · rw [if_pos hdigit]
      have hpiece (piece : Bytes) (hsplit : c :: text = piece ++ rest) (hrest : NoDigitFirst rest) :
          ∃ others, piece = c :: others ∧ text = others ++ rest := by
        cases piece with
        | nil => exact absurd hdigit (hrest c (by rw [← nil_append rest, ← hsplit]; rfl))
        | cons first others =>
          obtain ⟨rfl, hothers⟩ := cons.inj hsplit
          exact ⟨others, rfl, hothers⟩
      constructor
      · intro hloop
        split_ifs at hloop with hlong
        obtain ⟨others, htext, hrest, hread, hcount, hbounds⟩ := ih.mp hloop
        refine ⟨c :: others, by rw [htext, cons_append], hrest, ?_, ?_, fun _ ↦ ?_⟩
        · rw [foldlM_cons, readDigit_ten hdigit]
          exact hread
        · rw [hcount, length_cons]
          omega
        · by_cases hothers : others = []
          · subst hothers
            cases hread
            rw [hcount, length_nil]
            rw [kMaxOctetDigits, kOctetMax] at hlong
            omega
          · exact hbounds hothers
      · rintro ⟨piece, hsplit, hrest, hread, hcount, hbounds⟩
        obtain ⟨others, rfl, hothers⟩ := hpiece piece hsplit hrest
        obtain ⟨hshort, hsmall⟩ := hbounds (cons_ne_nil _ _)
        rw [foldlM_cons, readDigit_ten hdigit] at hread
        have hgrown := le_of_foldlM_readDigit (by decide) hread
        rw [length_cons] at hcount
        have hfits : ¬(kMaxOctetDigits < digits + 1 ∨
            kOctetMax < value * kDecimalBase + (c.toNat - 0x30)) := by
          rw [kMaxOctetDigits, kOctetMax, kDecimalBase]
          omega
        rw [if_neg hfits]
        exact ih.mpr ⟨others, hothers, hrest, hread, by omega, fun _ ↦ ⟨hshort, hsmall⟩⟩
    · rw [if_neg hdigit]
      constructor
      · intro hloop
        cases hloop
        refine ⟨[], rfl, ?_, rfl, rfl, fun hne ↦ absurd rfl hne⟩
        rintro first hfirst
        cases hfirst
        exact hdigit
      · rintro ⟨piece, hsplit, -, hread, hcount, -⟩
        cases piece with
        | nil =>
          cases hread
          rw [hcount, length_nil, Nat.add_zero, hsplit, nil_append]
        | cons first others =>
          obtain ⟨rfl, -⟩ := cons.inj hsplit
          rw [foldlM_cons, readDigit_ten_eq_none hdigit] at hread
          cases hread

theorem IsOctet.ne_nil (hoctet : IsOctet piece number) : piece ≠ [] := by
  rintro rfl
  obtain ⟨-, hread, -⟩ := hoctet
  cases hread

theorem IsOctet.foldlM (hoctet : IsOctet piece number) : piece.foldlM (readDigit 10) 0 = some number := by
  obtain ⟨-, hread, -⟩ := id hoctet
  rwa [readNumeral, if_neg hoctet.ne_nil] at hread

theorem partLoop_of_octet (hoctet : IsOctet piece number) (hrest : NoDigitFirst rest) (hpart : part < 4) :
    partLoop (piece ++ rest) addr part =
      match rest with
      | [] => some (placeOctet addr part number, part + 1)
      | c :: rest =>
        if c ≠ dot then none
        else if rest = [] then none
        else partLoop rest (placeOctet addr part number) (part + 1) := by
  have hne : piece ++ rest ≠ [] := by simp [hoctet.ne_nil]
  have hlength : piece.length ≠ 0 := mt length_eq_zero_iff.mp hoctet.ne_nil
  have hloop : digitLoop (piece ++ rest) 0 0 = some (number, piece.length, rest) :=
    digitLoop_eq_some_iff.mpr
      ⟨piece, rfl, hrest, hoctet.foldlM, (Nat.zero_add _).symm, fun _ ↦ ⟨hoctet.1, hoctet.2.2⟩⟩
  rw [partLoop, if_neg hne]
  split
  · rename_i hnone
    rw [hloop] at hnone
    cases hnone
  · rename_i hsome
    rw [hloop] at hsome
    cases hsome
    rw [if_neg hlength, if_neg (by rw [kIpv4Octets]; omega)]
    cases rest <;> rfl

theorem octet_of_digitLoop (hloop : digitLoop text 0 0 = some (number, count, rest)) (hcount : count ≠ 0) :
    ∃ piece, IsOctet piece number ∧ text = piece ++ rest := by
  obtain ⟨piece, htext, -, hread, hlength, hbounds⟩ := digitLoop_eq_some_iff.mp hloop
  rw [Nat.zero_add] at hlength
  have hne : piece ≠ [] := by
    rintro rfl
    exact hcount hlength
  obtain ⟨hshort, hsmall⟩ := hbounds hne
  refine ⟨piece, ⟨hlength ▸ hshort, ?_, hsmall⟩, htext⟩
  rwa [readNumeral, if_neg hne]

theorem exists_of_partLoop {result : UInt32} {parts : Nat}
    (hloop : partLoop text addr part = some (result, parts)) :
    ∃ pieces numbers, List.Forall₂ IsOctet pieces numbers ∧ text = [dot].intercalate pieces ∧
      result = placeOctets addr part numbers ∧ parts = part + numbers.length := by
  fun_induction partLoop text addr part with
  | case1 =>
    cases hloop
    exact ⟨[], [], .nil, rfl, rfl, rfl⟩
  | case2 => cases hloop
  | case3 => cases hloop
  | case4 => cases hloop
  | case5 text addr part _ value digits hcount _ _ hdigits =>
    obtain ⟨rfl, rfl⟩ := Prod.mk.inj (Option.some.inj hloop)
    obtain ⟨piece, hoctet, htext⟩ := octet_of_digitLoop hdigits hcount
    refine ⟨[piece], [value], .cons hoctet .nil, ?_, rfl, rfl⟩
    rw [htext, append_nil, intercalate_singleton]
  | case6 => cases hloop
  | case7 => cases hloop
  | case8 text addr part _ value digits hcount _ _ c rest hdigits hdot hrest _ ih =>
    obtain ⟨piece, hoctet, htext⟩ := octet_of_digitLoop hdigits hcount
    obtain ⟨pieces, numbers, hoctets, hbehind, hresult, hparts⟩ := ih hloop
    refine ⟨piece :: pieces, value :: numbers, .cons hoctet hoctets, ?_, hresult, ?_⟩
    · have hmore : pieces ≠ [] := by
        rintro rfl
        exact hrest hbehind
      rw [intercalate_cons_of_ne_nil hmore, ← hbehind, htext, not_not.mp hdot, append_assoc]
      rfl
    · rw [hparts, length_cons]
      omega

variable {pieces : List Bytes} {numbers : List Nat}

theorem intercalate_octets_ne_nil (hoctets : List.Forall₂ IsOctet pieces numbers) (hpieces : pieces ≠ []) :
    [dot].intercalate pieces ≠ [] := by
  cases hoctets with
  | nil => exact absurd rfl hpieces
  | @cons piece _ others _ hoctet _ =>
    by_cases hothers : others = []
    · rw [hothers, intercalate_singleton]
      exact hoctet.ne_nil
    · rw [intercalate_cons_of_ne_nil hothers]
      simp

theorem partLoop_intercalate
    (hoctets : List.Forall₂ IsOctet pieces numbers) (hpart : part + numbers.length ≤ 4) :
    partLoop ([dot].intercalate pieces) addr part =
      some (placeOctets addr part numbers, part + numbers.length) := by
  induction hoctets generalizing addr part with
  | nil =>
    rw [partLoop]
    rfl
  | @cons piece number pieces numbers hoctet hoctets ih =>
    rw [length_cons] at hpart
    by_cases hmore : pieces = []
    · subst hmore
      cases hoctets
      have hnothing : NoDigitFirst [] := by simp [NoDigitFirst]
      have hround : partLoop (piece ++ []) addr part = some (placeOctet addr part number, part + 1) :=
        partLoop_of_octet hoctet hnothing (by omega)
      rw [append_nil] at hround
      rw [intercalate_singleton, hround]
      rfl
    · have hdot : NoDigitFirst (dot :: [dot].intercalate pieces) := by
        intro c hc
        cases hc
        decide
      have hbehind := intercalate_octets_ne_nil hoctets hmore
      have hroom : part < 4 := by omega
      rw [intercalate_cons_of_ne_nil hmore, append_assoc, singleton_append,
        partLoop_of_octet hoctet hdot hroom]
      dsimp only
      rw [if_neg (not_not.mpr rfl), if_neg hbehind, ih (by omega), placeOctets, length_cons]
      congr 2
      omega

theorem toNat_placeOctets {first second third fourth : Nat} (hfirst : first ≤ 255) (hsecond : second ≤ 255)
    (hthird : third ≤ 255) (hfourth : fourth ≤ 255) :
    (placeOctets 0 0 [first, second, third, fourth]).toNat =
      [first, second, third, fourth].foldl (· * 256 + ·) 0 := by
  have hbyte {number : Nat} (hnumber : number ≤ 255) :
      UInt32.ofNat number = (UInt8.ofNat number).toUInt32 ∧ (UInt8.ofNat number).toNat = number := by
    have hvalue : (UInt8.ofNat number).toNat = number := by
      rw [UInt8.toNat_ofNat']
      omega
    refine ⟨UInt32.toNat_inj.mp ?_, hvalue⟩
    rw [UInt8.toNat_toUInt32, hvalue, UInt32.toNat_ofNat']
    omega
  have hplaces : placeOctets 0 0 [first, second, third, fourth] =
      UInt32.ofNat first <<< 24 ||| UInt32.ofNat second <<< 16 ||| UInt32.ofNat third <<< 8 |||
        UInt32.ofNat fourth := by
    have hlast : UInt32.ofNat fourth <<< 0 = UInt32.ofNat fourth := UInt32.shiftLeft_zero
    change (0 : UInt32) ||| UInt32.ofNat first <<< 24 ||| UInt32.ofNat second <<< 16 |||
      UInt32.ofNat third <<< 8 ||| UInt32.ofNat fourth <<< 0 = _
    rw [UInt32.zero_or, hlast]
  rw [hplaces, or_reverse, (hbyte hfirst).1, (hbyte hsecond).1, (hbyte hthird).1, (hbyte hfourth).1,
    toNat_or_bytes, (hbyte hfirst).2, (hbyte hsecond).2, (hbyte hthird).2, (hbyte hfourth).2]
  simp only [foldl_cons, foldl_nil]
  ring

theorem forall₂_octet_le
    (hoctets : List.Forall₂ IsOctet pieces numbers) : ∀ number ∈ numbers, number ≤ 255 := by
  induction hoctets with
  | nil => simp
  | cons hoctet _ ih => exact forall_mem_cons.mpr ⟨hoctet.2.2, ih⟩

theorem toNat_placeOctets_of_forall₂
    (hoctets : List.Forall₂ IsOctet pieces numbers) (hlength : numbers.length = 4) :
    (placeOctets 0 0 numbers).toNat = numbers.foldl (· * 256 + ·) 0 := by
  obtain ⟨first, second, third, fourth, rfl⟩ := length_eq_four.mp hlength
  have hle := forall₂_octet_le hoctets
  simp only [forall_mem_cons] at hle
  obtain ⟨hfirst, hsecond, hthird, hfourth, -⟩ := hle
  exact toNat_placeOctets hfirst hsecond hthird hfourth

/-- A text is read exactly when it is a dotted quad between blanks, and as the address that it names. -/
theorem parseIp4_eq_some_iff (text : Bytes) (address : UInt32) : parseIp4 text = some address ↔
      ∃ numbers, IsDotted (trimBy isSpace text) numbers ∧ address.toNat = numbers.foldl (· * 256 + ·) 0 := by
  have hread : parseIp4 text = some address ↔
      trimBy isSpace text ≠ [] ∧ partLoop (trimBy isSpace text) 0 0 = some (address, 4) := by
    rw [parseIp4]
    by_cases hblank : trimBy isSpace text = []
    · simp [hblank]
    · rw [if_neg hblank]
      rcases hloop : partLoop (trimBy isSpace text) 0 0 with _ | ⟨addr, part⟩
      · simp
      · by_cases hparts : part = 4 <;> simp [hblank, kIpv4Octets, hparts]
  rw [hread]
  constructor
  · rintro ⟨-, hloop⟩
    obtain ⟨pieces, numbers, hoctets, htext, hresult, hparts⟩ := exists_of_partLoop hloop
    have hlength : numbers.length = 4 := by omega
    exact ⟨numbers, ⟨pieces, hoctets, hlength, htext⟩,
      hresult ▸ toNat_placeOctets_of_forall₂ hoctets hlength⟩
  · rintro ⟨numbers, ⟨pieces, hoctets, hlength, htext⟩, haddress⟩
    have hpieces : pieces ≠ [] := by
      rintro rfl
      cases hoctets
      cases hlength
    have hloop : partLoop ([dot].intercalate pieces) 0 0 =
        some (placeOctets 0 0 numbers, 0 + numbers.length) := partLoop_intercalate hoctets (by omega)
    have hplaced : placeOctets 0 0 numbers = address :=
      UInt32.toNat_inj.mp ((toNat_placeOctets_of_forall₂ hoctets hlength).trans haddress.symm)
    rw [hplaced, Nat.zero_add, hlength] at hloop
    exact ⟨htext ▸ intercalate_octets_ne_nil hoctets hpieces, htext ▸ hloop⟩

theorem isSome_parseIp4_iff (text : Bytes) :
    (parseIp4 text).isSome ↔ ∃ numbers, IsDotted (trimBy isSpace text) numbers := by
  constructor
  · intro haccepted
    obtain ⟨address, haddress⟩ := Option.isSome_iff_exists.mp haccepted
    obtain ⟨numbers, hdotted, -⟩ := (parseIp4_eq_some_iff text address).mp haddress
    exact ⟨numbers, hdotted⟩
  · rintro ⟨numbers, hdotted⟩
    obtain ⟨pieces, hoctets, hlength, -⟩ := id hdotted
    have haddress : parseIp4 text = some (placeOctets 0 0 numbers) :=
      (parseIp4_eq_some_iff text _).mpr ⟨numbers, hdotted, toNat_placeOctets_of_forall₂ hoctets hlength⟩
    rw [haddress]
    rfl

def octets (addr : UInt32) : List Nat :=
  [addr.toNat / 2 ^ 24 % 256, addr.toNat / 2 ^ 16 % 256, addr.toNat / 2 ^ 8 % 256, addr.toNat % 256]

theorem octetText_eq (addr places : UInt32) (hplaces : places.toNat < 32) :
    octetText addr places = numeral 10 (addr.toNat / 2 ^ places.toNat % 256) := by
  rw [octetText, UInt32.toNat_and, UInt32.toNat_shiftRight, Nat.mod_eq_of_lt hplaces,
    Nat.shiftRight_eq_div_pow]
  exact congrArg (numeral 10) (Nat.and_two_pow_sub_one_eq_mod _ 8)

theorem isOctet_numeral (hnumber : number < 256) : IsOctet (numeral 10 number) number :=
  ⟨length_numeral_le (by decide) (by decide) (by omega), readNumeral_numeral (by decide) (by decide) number,
    by omega⟩

theorem toString_eq (addr : UInt32) :
    toString addr = [dot].intercalate ((octets addr).map (numeral 10)) := by
  have hlength (number : Nat) (hnumber : number < 256) : (numeral 10 number).length ≤ 3 :=
    (isOctet_numeral hnumber).1
  have hfirst := hlength (addr.toNat / 2 ^ 24 % 256) (Nat.mod_lt _ (by decide))
  have hsecond := hlength (addr.toNat / 2 ^ 16 % 256) (Nat.mod_lt _ (by decide))
  have hthird := hlength (addr.toNat / 2 ^ 8 % 256) (Nat.mod_lt _ (by decide))
  have hfourth := hlength (addr.toNat % 256) (Nat.mod_lt _ (by decide))
  have hhigh : octetText addr 24 = numeral 10 (addr.toNat / 2 ^ 24 % 256) :=
    octetText_eq addr 24 (by decide)
  have hmiddle : octetText addr 16 = numeral 10 (addr.toNat / 2 ^ 16 % 256) :=
    octetText_eq addr 16 (by decide)
  have hlow : octetText addr 8 = numeral 10 (addr.toNat / 2 ^ 8 % 256) := octetText_eq addr 8 (by decide)
  have hlast : octetText addr 0 = numeral 10 (addr.toNat % 256) :=
    (octetText_eq addr 0 (by decide)).trans (by rw [UInt32.toNat_zero, Nat.pow_zero, Nat.div_one])
  rw [toString, hhigh, hmiddle, hlow, hlast]
  refine take_of_length_le ?_
  simp only [intercalate_cons_cons, intercalate_singleton, length_append, length_singleton, kIp4TextLen]
  omega

theorem isDotted_toString (addr : UInt32) : IsDotted (toString addr) (octets addr) := by
  have hoctets : List.Forall₂ IsOctet ((octets addr).map (numeral 10)) (octets addr) := by
    have hoctet (number : Nat) : IsOctet (numeral 10 (number % 256)) (number % 256) :=
      isOctet_numeral (Nat.mod_lt _ (by decide))
    exact .cons (hoctet _) (.cons (hoctet _) (.cons (hoctet _) (.cons (hoctet _) .nil)))
  exact ⟨_, hoctets, rfl, toString_eq addr⟩

theorem isSpace_eq_false (c : UInt8) (hc : IsLowerDigit c ∨ c = dot) : isSpace c = false := by
  rw [isSpace, Bool.or_eq_false_iff, beq_eq_false_iff_ne, beq_eq_false_iff_ne]
  constructor <;> rintro rfl <;> revert hc <;> decide

theorem trimBy_toString (addr : UInt32) : trimBy isSpace (toString addr) = toString addr := by
  have hbyte (c : UInt8) (hc : c ∈ toString addr) : isSpace c = false := by
    have hdigit (number : Nat) (hmem : c ∈ numeral 10 number) : IsLowerDigit c :=
      isLowerDigit_of_mem_numeral (by decide) (by decide) hmem
    rw [toString_eq, octets] at hc
    simp only [map_cons, map_nil, intercalate_cons_cons, intercalate_singleton,
      mem_append, mem_singleton] at hc
    refine isSpace_eq_false c ?_
    rcases hc with (hc | hc) | (hc | hc) | (hc | hc) | hc
    all_goals first | exact .inl (hdigit _ hc) | exact .inr hc
  exact trimBy_eq_self_iff.mpr
    ⟨fun c hc ↦ hbyte c (mem_of_mem_head? hc), fun c hc ↦ hbyte c (mem_of_mem_getLast? hc)⟩

theorem parseIp4_toString (addr : UInt32) : parseIp4 (toString addr) = some addr := by
  have haddr := addr.toNat_lt
  rw [parseIp4_eq_some_iff, trimBy_toString]
  refine ⟨octets addr, isDotted_toString addr, ?_⟩
  simp only [octets, foldl_cons, foldl_nil]
  omega

/-! ## Masks -/

variable {mask net : UInt32} {places : Nat}

theorem isValidMask_iff_places :
    isValidMask mask ↔ ∃ places ≤ 32, mask.toBitVec = highMask 32 places := by
  rw [← not_and_succ_eq_zero_iff, isValidMask, beq_iff_eq, ← UInt32.toBitVec_inj]
  rfl

theorem toBitVec_maskFromPrefix (hplaces : places ≤ 32) :
    (maskFromPrefix places).toBitVec = highMask 32 places := by
  have hinside : ¬((places : Int) < 0 ∨ (kIpv4Bits : Int) < places) := by
    rw [kIpv4Bits]
    omega
  rw [maskFromPrefix, if_neg hinside]
  by_cases hzero : places = 0
  · rw [hzero]
    rfl
  · have hones : (0xFFFFFFFF : UInt32).toBitVec = BitVec.allOnes 32 := rfl
    rw [if_neg (by omega), Int.toNat_natCast, kIpv4Bits, UInt32.toBitVec_shiftLeft, hones, highMask,
      BitVec.shiftLeft_eq']
    congr 1
    change (32 - places) % 2 ^ 32 % 32 = 32 - places
    omega

theorem isValidMask_iff :
    isValidMask mask ↔ ∃ places : Nat, places ≤ 32 ∧ mask = maskFromPrefix places := by
  rw [isValidMask_iff_places]
  refine exists_congr fun places ↦ and_congr_right fun hplaces ↦ ?_
  rw [← toBitVec_maskFromPrefix hplaces, UInt32.toBitVec_inj]

theorem and_one_eq_zero_iff (m : UInt32) : m &&& 1 = 0 ↔ m.toNat % 2 = 0 := by
  rw [← UInt32.toNat_inj, UInt32.toNat_and, UInt32.toNat_one, Nat.and_one_is_mod, UInt32.toNat_zero]

theorem hostLoop_eq {m : UInt32} {odd count bits : Nat} (hm : m.toNat = (2 * odd + 1) * 2 ^ count) :
    hostLoop m bits = bits + count := by
  induction count generalizing m bits with
  | zero =>
    have hset : ¬(m ≠ 0 ∧ m &&& 1 = 0) := by
      rintro ⟨-, hclear⟩
      rw [and_one_eq_zero_iff] at hclear
      omega
    rw [hostLoop, if_neg hset, Nat.add_zero]
  | succ count ih =>
    have hhalf : m.toNat = 2 * ((2 * odd + 1) * 2 ^ count) := by
      rw [hm, Nat.pow_succ]
      ring
    have hclear : m ≠ 0 ∧ m &&& 1 = 0 := by
      refine ⟨?_, by rw [and_one_eq_zero_iff]; omega⟩
      rintro rfl
      rw [UInt32.toNat_zero] at hm
      have hpositive : 0 < (2 * odd + 1) * 2 ^ (count + 1) := Nat.mul_pos (Nat.succ_pos _) (Nat.two_pow_pos _)
      omega
    have hnext : (m >>> 1).toNat = (2 * odd + 1) * 2 ^ count := by
      rw [UInt32.toNat_shiftRight]
      change m.toNat >>> 1 = _
      rw [Nat.shiftRight_eq_div_pow, hhalf]
      omega
    rw [hostLoop, if_pos hclear, ih hnext, Nat.add_assoc, Nat.add_comm 1]

theorem hostBits_maskFromPrefix (hpositive : 0 < places) (hplaces : places ≤ 32) :
    hostBits (maskFromPrefix places) = 32 - places := by
  have hvalue : (maskFromPrefix places).toNat = (2 ^ places - 1) * 2 ^ (32 - places) := by
    rw [← UInt32.toNat_toBitVec, toBitVec_maskFromPrefix hplaces, toNat_highMask hplaces]
  obtain ⟨others, rfl⟩ := Nat.exists_eq_add_one_of_ne_zero hpositive.ne'
  have hodd : 2 ^ (others + 1) - 1 = 2 * (2 ^ others - 1) + 1 := by
    have hpower := Nat.two_pow_pos others
    rw [Nat.pow_succ]
    omega
  rw [hodd] at hvalue
  rw [hostBits, hostLoop_eq hvalue, Nat.zero_add]

theorem prefixLength_zero : prefixLength 0 = 32 := by
  have hvalid : isValidMask 0 := rfl
  have hbits : hostBits 0 = 0 := by rw [hostBits, hostLoop, if_neg (fun hm ↦ hm.1 rfl)]
  rw [prefixLength, hvalid, hbits]
  rfl

theorem prefixLength_maskFromPrefix (hpositive : 0 < places) (hplaces : places ≤ 32) :
    prefixLength (maskFromPrefix places) = places := by
  have hvalid : isValidMask (maskFromPrefix places) := isValidMask_iff.mpr ⟨places, hplaces, rfl⟩
  rw [prefixLength, hvalid, hostBits_maskFromPrefix hpositive hplaces, kIpv4Bits]
  change (32 : Int) - (32 - places : Nat) = places
  omega

theorem maskFromPrefix_eq_zero_iff (hplaces : places ≤ 32) : maskFromPrefix places = 0 ↔ places = 0 := by
  have hzero : (0 : UInt32) = maskFromPrefix (0 : Nat) := rfl
  rw [hzero, ← UInt32.toBitVec_inj, toBitVec_maskFromPrefix hplaces, toBitVec_maskFromPrefix (Nat.zero_le 32),
    highMask_inj hplaces (Nat.zero_le 32)]

/-- An address is in a network when both are in the same network of a valid mask that is not zero. -/
theorem contains_iff (net mask addr : UInt32) : contains net mask addr ↔
    mask ≠ 0 ∧ ∃ places : Nat, places ≤ 32 ∧ mask = maskFromPrefix places ∧
      SameHighBits places net.toBitVec addr.toBitVec := by
  have hsplit : contains net mask addr = true ↔
      mask ≠ 0 ∧ isValidMask mask = true ∧ network addr mask = network net mask := by
    rw [contains, network, network]
    split_ifs with hmask
    · simp only [Bool.or_eq_true, beq_iff_eq, Bool.not_eq_true'] at hmask
      rcases hmask with hzero | hvalid
      · simp [hzero]
      · simp [hvalid]
    · simp only [Bool.or_eq_true, beq_iff_eq, Bool.not_eq_true', not_or, Bool.not_eq_false] at hmask
      simp [hmask]
  rw [hsplit, isValidMask_iff, ← exists_and_right]
  refine and_congr_right fun _ ↦ exists_congr fun places ↦ ?_
  rw [and_assoc]
  refine and_congr_right fun hplaces ↦ and_congr_right fun hmask ↦ ?_
  rw [hmask, network, network, ← UInt32.toBitVec_inj, UInt32.toBitVec_and, UInt32.toBitVec_and,
    toBitVec_maskFromPrefix hplaces, and_highMask_eq_iff hplaces]
  exact forall_congr' fun i ↦ imp_congr_right fun _ ↦ eq_comm

/-- What the class answers about a text, an address, a mask and a network. -/
structure AnswersRightly (text : Bytes) (net mask addr : UInt32) : Prop where
  /-- A text is accepted exactly when it is a dotted quad between blanks. -/
  accept : (parseIp4 text).isSome ↔ ∃ numbers, IsDotted (trimBy isSpace text) numbers
  parse : ∀ address, parseIp4 text = some address ↔
    ∃ numbers, IsDotted (trimBy isSpace text) numbers ∧ address.toNat = numbers.foldl (· * 256 + ·) 0
  /-- An address is read back from its own text. -/
  round_trip : parseIp4 (toString addr) = some addr
  valid : isValidMask mask = true ↔ ∃ places : Nat, places ≤ 32 ∧ mask = maskFromPrefix places
  /-- The length of a mask is the one it was built from. -/
  length : ∀ places : Nat, places ≤ 32 → mask = maskFromPrefix places → prefixLength mask = places
  no_length : (∀ places : Nat, places ≤ 32 → mask ≠ maskFromPrefix places) → prefixLength mask = -1
  member : contains net mask addr = true ↔ mask ≠ 0 ∧ ∃ places : Nat, places ≤ 32 ∧
    mask = maskFromPrefix places ∧ SameHighBits places net.toBitVec addr.toBitVec

/-- Every answer is right but for the length of the mask without a bit. -/
theorem answersRightly_iff (text : Bytes) (net mask addr : UInt32) :
    AnswersRightly text net mask addr ↔ mask ≠ 0 := by
  constructor
  · rintro hright rfl
    have hlength := hright.length 0 (Nat.zero_le 32) rfl
    rw [prefixLength_zero] at hlength
    cases hlength
  · intro hmask
    refine ⟨isSome_parseIp4_iff text, parseIp4_eq_some_iff text, parseIp4_toString addr, isValidMask_iff,
      ?_, ?_, contains_iff net mask addr⟩
    · rintro places hplaces rfl
      have hpositive : places ≠ 0 := mt (maskFromPrefix_eq_zero_iff hplaces).mpr hmask
      exact prefixLength_maskFromPrefix (Nat.pos_of_ne_zero hpositive) hplaces
    · intro hnone
      have hinvalid : ¬isValidMask mask = true := by
        rw [isValidMask_iff]
        rintro ⟨places, hplaces, hmask⟩
        exact hnone places hplaces hmask
      rw [prefixLength, Bool.eq_false_of_not_eq_true hinvalid]
      rfl

/-- The mask of no places is said to have 32. -/
theorem empty_mask_has_wrong_length :
    ¬∀ (text : Bytes) (net mask addr : UInt32), AnswersRightly text net mask addr := by
  intro hright
  have hlength := (hright [] 0 0 0).length 0 (Nat.zero_le 32) rfl
  rw [prefixLength_zero] at hlength
  cases hlength

end DhcpServer.Core.Subnet
