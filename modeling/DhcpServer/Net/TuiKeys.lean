import DhcpServer.Net.FileBrowser

/-!
# The keys of a terminal

`decodeTuiKeys` turns a chunk of bytes into keys. A sequence it does not know is no key and swallows nothing
that follows. The number of `ESC [ N ~` is an `int` and wraps: a long unknown number can read as a known one.
-/

namespace DhcpServer.Net.TuiKeys

open Library List Option

def ESC : UInt8 := 0x1B
def tilde : UInt8 := 0x7E

def arrowKey (finalByte : UInt8) : Option TuiKeyKind :=
  if finalByte = 0x41 then some .up
  else if finalByte = 0x42 then some .down
  else if finalByte = 0x43 then some .right
  else if finalByte = 0x44 then some .left
  else if finalByte = 0x48 then some .home
  else if finalByte = 0x46 then some .endKey
  else none

def tildeKey : Int → Option TuiKeyKind
  | 1 | 7 => some .home
  | 4 | 8 => some .endKey
  | 5 => some .pageUp
  | 6 => some .pageDown
  | 11 => some .f1
  | 12 => some .f2
  | 13 => some .f3
  | 14 => some .f4
  | 15 => some .f5
  | 17 => some .f6
  | 18 => some .f7
  | 19 => some .f8
  | 20 => some .f9
  | 21 => some .f10
  | 23 => some .f11
  | 24 => some .f12
  | _ => none

def plainKeys (c : UInt8) : List TuiKey :=
  if c = 0x0D ∨ c = 0x0A then [⟨.enter, 0⟩]
  else if c = 0x09 then [⟨.tab, 0⟩]
  else if c = 0x7F ∨ c = 0x08 then [⟨.backspace, 0⟩]
  else if c = 0x03 then [⟨.ctrlC, 0⟩]
  else if 0x20 ≤ c ∧ c < 0x7F then [⟨.char, c⟩]
  else []

def keyOf (kind : Option TuiKeyKind) : List TuiKey := kind.toList.map (⟨·, 0⟩)

def ss3Keys (finalByte : UInt8) : List TuiKey :=
  if finalByte = 0x50 then [⟨.f1, 0⟩]
  else if finalByte = 0x51 then [⟨.f2, 0⟩]
  else if finalByte = 0x52 then [⟨.f3, 0⟩]
  else if finalByte = 0x53 then [⟨.f4, 0⟩]
  else keyOf (arrowKey finalByte)

def wrapped (number : Int) : Int := number.bmod (2 ^ 32)

def readNumber (number : Int) : Bytes → Int
  | [] => number
  | p :: rest =>
    if p < 0x30 ∨ 0x39 < p then -1 else readNumber (wrapped (number * 10 + (p.toNat - 0x30 : Nat))) rest

def csiKeys (params : Bytes) (finalByte : UInt8) : List TuiKey :=
  if params ≠ [] ∧ finalByte = tilde then
    if 0 < readNumber 0 params then keyOf (tildeKey (readNumber 0 params)) else []
  else if params = ascii "1;3" ∧ finalByte = 0x50 then [⟨.altF1, 0⟩]
  else if params = ascii "1;3" ∧ finalByte = 0x51 then [⟨.altF2, 0⟩]
  else if params = [] then keyOf (arrowKey finalByte)
  else []

def isFinal (byte : UInt8) : Bool := 0x40 ≤ byte && byte ≤ 0x7E

/-- One turn of the loop: the keys, and the text that is left. -/
def turn (c : UInt8) (rest : Bytes) : List TuiKey × Bytes :=
  if c ≠ ESC then (plainKeys c, rest)
  else
    match rest with
    | [] => ([⟨.escape, 0⟩], [])
    | kind :: text =>
      if kind ≠ 0x5B ∧ kind ≠ 0x4F then ([⟨.escape, 0⟩], rest)
      else
        match text.dropWhile (!isFinal ·) with
        | [] => ([⟨.escape, 0⟩], rest)
        | finalByte :: left =>
          (if kind = 0x4F then ss3Keys finalByte else csiKeys (text.takeWhile (!isFinal ·)) finalByte, left)

/-- The loop, which ends only behind the last byte. -/
def decodeLoop : (fuel : Nat) → Bytes → Option (List TuiKey)
  | _, [] => some []
  | 0, _ :: _ => none
  | fuel + 1, c :: rest => (decodeLoop fuel (turn c rest).2).map ((turn c rest).1 ++ ·)

def decodeTuiKeys (bytes : Bytes) : Option (List TuiKey) := decodeLoop bytes.length bytes

theorem turn_shorter (c : UInt8) (rest : Bytes) : (turn c rest).2.length ≤ rest.length := by
  unfold turn
  split
  · exact le_refl _
  · cases rest with
    | nil => exact le_refl _
    | cons kind text =>
      have hdrop := (dropWhile_suffix (l := text) (!isFinal ·)).length_le
      dsimp only
      split
      · exact le_refl _
      · split
        · exact le_refl _
        · rename_i finalByte left heq
          rw [heq, length_cons] at hdrop
          exact (Nat.le_of_succ_le hdrop).trans (Nat.le_succ _)

theorem exists_decodeLoop {fuel : Nat} {text : Bytes} (hfuel : text.length ≤ fuel) :
    ∃ keys, decodeLoop fuel text = some keys := by
  induction fuel generalizing text with
  | zero =>
    rw [length_eq_zero_iff.mp (Nat.le_zero.mp hfuel)]
    exact ⟨[], rfl⟩
  | succ fuel ih =>
    cases text with
    | nil => exact ⟨[], rfl⟩
    | cons c rest =>
      have hshorter := turn_shorter c rest
      obtain ⟨keys, hkeys⟩ := ih (show (turn c rest).2.length ≤ fuel by rw [length_cons] at hfuel; omega)
      exact ⟨_, by rw [decodeLoop, hkeys, map_some]⟩

inductive Encoding
  | char (byte : UInt8) (hprinted : 0x20 ≤ byte ∧ byte < 0x7F)
  | enter (byte : UInt8) (hbyte : byte = 0x0D ∨ byte = 0x0A)
  | tab
  | backspace (byte : UInt8) (hbyte : byte = 0x7F ∨ byte = 0x08)
  | ctrlC
  | ss3 (finalByte : UInt8) (hfinal : isFinal finalByte = true)
  | csi (finalByte : UInt8) (hfinal : isFinal finalByte = true)
  | number (params : Bytes) (hparams : ∀ byte ∈ params, isFinal byte = false)
  | altF1
  | altF2

/-- The key of a decimal text, by its exact value. -/
def numberKey (params : Bytes) : Option TuiKeyKind := (readNumeral 10 params).bind fun value ↦ tildeKey value

namespace Encoding

def written : Encoding → Bytes
  | char byte _ | enter byte _ | backspace byte _ => [byte]
  | tab => [0x09]
  | ctrlC => [0x03]
  | ss3 finalByte _ => [ESC, 0x4F, finalByte]
  | csi finalByte _ => [ESC, 0x5B, finalByte]
  | number params _ => ESC :: 0x5B :: (params ++ [tilde])
  | altF1 => ESC :: 0x5B :: ascii "1;3P"
  | altF2 => ESC :: 0x5B :: ascii "1;3Q"

def means : Encoding → List TuiKey
  | char byte _ => [⟨.char, byte⟩]
  | enter _ _ => [⟨.enter, 0⟩]
  | tab => [⟨.tab, 0⟩]
  | backspace _ _ => [⟨.backspace, 0⟩]
  | ctrlC => [⟨.ctrlC, 0⟩]
  | ss3 finalByte _ => ss3Keys finalByte
  | csi finalByte _ => keyOf (arrowKey finalByte)
  | number params _ => keyOf (numberKey params)
  | altF1 => [⟨.altF1, 0⟩]
  | altF2 => [⟨.altF2, 0⟩]

/-- What the loop makes of it. -/
def decoded : Encoding → List TuiKey
  | number params _ => csiKeys params tilde
  | encoding => encoding.means

end Encoding

/-- A number that no key has, and that is the number of a key modulo 2^32. -/
def Slips (params : Bytes) : Prop :=
  ∃ value : Nat, readNumeral 10 params = some value ∧ tildeKey value = none ∧
    (tildeKey (value % 2 ^ 32 : Nat)).isSome

def Encoding.Slips : Encoding → Prop
  | number params _ => TuiKeys.Slips params
  | _ => False

theorem turn_sequence {kind finalByte : UInt8} (params : Bytes) (hkind : kind = 0x5B ∨ kind = 0x4F)
    (hparams : ∀ byte ∈ params, isFinal byte = false) (hfinal : isFinal finalByte) (text : Bytes) :
    turn ESC (kind :: (params ++ finalByte :: text)) =
      (if kind = 0x4F then ss3Keys finalByte else csiKeys params finalByte, text) := by
  have hrun : ∀ byte ∈ params, (!isFinal byte) := fun byte hbyte ↦ by rw [hparams byte hbyte]; rfl
  have hknown : ¬ (kind ≠ 0x5B ∧ kind ≠ 0x4F) := by tauto
  have hdrop : (params ++ finalByte :: text).dropWhile (!isFinal ·) = finalByte :: text := by
    rw [dropWhile_append_of_pos hrun]
    simp [hfinal]
  have htake : (params ++ finalByte :: text).takeWhile (!isFinal ·) = params := by
    rw [takeWhile_append_of_pos hrun]
    simp [hfinal]
  simp only [turn, ne_eq, not_true_eq_false, if_false, if_neg hknown, hdrop, htake]

theorem turn_written (encoding : Encoding) (text : Bytes) : ∃ c rest,
    encoding.written = c :: rest ∧ turn c (rest ++ text) = (encoding.decoded, text) := by
  cases encoding with
  | char byte hprinted =>
    have hbyte : byte ≠ ESC ∧ byte ≠ 0x0D ∧ byte ≠ 0x0A ∧ byte ≠ 0x09 ∧ byte ≠ 0x7F ∧ byte ≠ 0x08 ∧
        byte ≠ 0x03 := by
      refine ⟨?_, ?_, ?_, ?_, ?_, ?_, ?_⟩
      all_goals
        rintro rfl
        exact absurd hprinted (by decide)
    refine ⟨byte, [], rfl, ?_⟩
    simp [turn, plainKeys, Encoding.decoded, Encoding.means, hbyte, hprinted]
  | enter byte hbyte =>
    refine ⟨byte, [], rfl, ?_⟩
    obtain rfl | rfl := hbyte
    · rfl
    · rfl
  | tab => exact ⟨0x09, [], rfl, rfl⟩
  | backspace byte hbyte =>
    refine ⟨byte, [], rfl, ?_⟩
    obtain rfl | rfl := hbyte
    · rfl
    · rfl
  | ctrlC => exact ⟨0x03, [], rfl, rfl⟩
  | ss3 finalByte hfinal =>
    exact ⟨ESC, [0x4F, finalByte], rfl, turn_sequence [] (.inr rfl) (forall_mem_nil _) hfinal text⟩
  | csi finalByte hfinal =>
    refine ⟨ESC, [0x5B, finalByte], rfl, ?_⟩
    refine (turn_sequence [] (.inl rfl) (forall_mem_nil _) hfinal text).trans ?_
    simp [csiKeys, Encoding.decoded, Encoding.means, ascii]
  | number params hparams =>
    refine ⟨ESC, 0x5B :: (params ++ [tilde]), rfl, ?_⟩
    rw [cons_append, append_assoc]
    exact turn_sequence params (.inl rfl) hparams rfl text
  | altF1 =>
    exact ⟨ESC, 0x5B :: ascii "1;3P", rfl, turn_sequence (ascii "1;3") (.inl rfl) (by decide +kernel) rfl text⟩
  | altF2 =>
    exact ⟨ESC, 0x5B :: ascii "1;3Q", rfl, turn_sequence (ascii "1;3") (.inl rfl) (by decide +kernel) rfl text⟩

theorem decodeLoop_encodings {encodings : List Encoding} {fuel : Nat}
    (hfuel : (encodings.flatMap Encoding.written).length ≤ fuel) :
    decodeLoop fuel (encodings.flatMap Encoding.written) = some (encodings.flatMap Encoding.decoded) := by
  induction encodings generalizing fuel with
  | nil => cases fuel <;> rfl
  | cons encoding encodings ih =>
    obtain ⟨c, rest, hwritten, hturn⟩ := turn_written encoding (encodings.flatMap Encoding.written)
    rw [flatMap_cons, hwritten, cons_append] at hfuel ⊢
    rw [length_cons, length_append] at hfuel
    obtain ⟨fuel, rfl⟩ : ∃ less, fuel = less + 1 := ⟨fuel - 1, by omega⟩
    rw [decodeLoop, hturn, ih (by omega), map_some, flatMap_cons]

theorem tildeKey_range {number : Int} (hnumber : number ≤ 0 ∨ 24 < number) : tildeKey number = none := by
  unfold tildeKey
  split
  all_goals first | rfl | omega

theorem tildeKey_wrapped (value : Nat) : tildeKey (wrapped value) = tildeKey (value % 2 ^ 32 : Nat) := by
  rw [wrapped, Int.bmod_eq_emod]
  split_ifs with hlarge
  · rw [tildeKey_range, tildeKey_range]
    all_goals omega
  · exact congrArg tildeKey (by omega)

theorem bmod_step (number digit : Int) (m : Nat) :
    (number.bmod m * 10 + digit).bmod m = (number * 10 + digit).bmod m := by
  rw [← Int.bmod_add_bmod, Int.bmod_mul_bmod, Int.bmod_add_bmod]

variable {params : Bytes}

theorem readNumber_of_readNumeral {total value : Nat}
    (hread : params.foldlM (readDigit 10) total = some value) :
    readNumber (wrapped total) params = wrapped value := by
  induction params generalizing total with
  | nil =>
    cases hread
    rfl
  | cons p params ih =>
    rw [foldlM_cons] at hread
    by_cases hdigit : 0x30 ≤ p ∧ p ≤ 0x39
    · rw [readDigit_ten hdigit] at hread
      have hinside : ¬ (p < 0x30 ∨ 0x39 < p) := by
        rw [not_or, UInt8.not_lt, UInt8.not_lt]
        exact hdigit
      have hstep : wrapped (wrapped total * 10 + (p.toNat - 0x30 : Nat)) =
          wrapped (total * 10 + (p.toNat - 0x30) : Nat) := by
        rw [Nat.cast_add, Nat.cast_mul]
        exact bmod_step _ _ _
      rw [readNumber, if_neg hinside, hstep, ih hread]
    · rw [readDigit_ten_eq_none hdigit] at hread
      cases hread

theorem readNumber_of_no_number {total : Nat} (number : Int)
    (hread : params.foldlM (readDigit 10) total = none) : readNumber number params = -1 := by
  induction params generalizing total number with
  | nil => cases hread
  | cons p params ih =>
    rw [readNumber]
    split_ifs with houtside
    · rfl
    · have hdigit : 0x30 ≤ p ∧ p ≤ 0x39 := by
        rw [not_or, UInt8.not_lt, UInt8.not_lt] at houtside
        exact houtside
      rw [foldlM_cons, readDigit_ten hdigit] at hread
      exact ih _ hread

theorem csiKeys_tilde (params : Bytes) : csiKeys params tilde =
      keyOf ((readNumeral 10 params).bind fun value ↦ tildeKey (value % 2 ^ 32 : Nat)) := by
  rw [csiKeys, readNumeral]
  by_cases hnil : params = []
  · subst hnil
    rfl
  · rw [if_pos ⟨hnil, rfl⟩, if_neg hnil]
    cases hread : params.foldlM (readDigit 10) 0 with
    | none =>
      rw [readNumber_of_no_number 0 hread]
      rfl
    | some value =>
      have hzero : wrapped (0 : Nat) = 0 := Int.zero_bmod
      have hnumber := readNumber_of_readNumeral hread
      rw [hzero] at hnumber
      rw [hnumber, bind_some, ← tildeKey_wrapped]
      split_ifs with hpositive
      · rfl
      · rw [tildeKey_range (.inl (not_lt.mp hpositive))]
        rfl

theorem csiKeys_of_slips (hslips : Slips params) :
    numberKey params = none ∧ ∃ key, csiKeys params tilde = [key] := by
  obtain ⟨value, hread, hnone, hsome⟩ := hslips
  obtain ⟨kind, hkind⟩ := isSome_iff_exists.mp hsome
  refine ⟨?_, ⟨kind, 0⟩, ?_⟩
  · rw [numberKey, hread]
    exact hnone
  · rw [csiKeys_tilde, hread]
    exact congrArg keyOf hkind

theorem csiKeys_of_not_slips (hkeeps : ¬ Slips params) :
    csiKeys params tilde = keyOf (numberKey params) := by
  rw [csiKeys_tilde, numberKey]
  cases hread : readNumeral 10 params with
  | none => rfl
  | some value =>
    rw [bind_some, bind_some]
    by_cases hsmall : value < 2 ^ 32
    · rw [Nat.mod_eq_of_lt hsmall]
    · have hnone : tildeKey value = none := tildeKey_range (.inr (by omega))
      rw [hnone, not_isSome_iff_eq_none.mp fun hsome ↦ hkeeps ⟨value, hread, hnone, hsome⟩]

theorem decoded_eq_means_iff (encodings : List Encoding) :
    encodings.flatMap Encoding.decoded = encodings.flatMap Encoding.means ↔
      ∀ encoding ∈ encodings, ¬ encoding.Slips := by
  -- a number that slips is one key too many, and nothing makes up for it
  have hone (encoding : Encoding) : ¬ encoding.Slips ∧ encoding.decoded = encoding.means ∨
      encoding.Slips ∧ encoding.means.length < encoding.decoded.length := by
    cases encoding with
    | number params hparams =>
      by_cases hslips : Slips params
      · obtain ⟨hnone, key, hkey⟩ := csiKeys_of_slips hslips
        refine .inr ⟨hslips, ?_⟩
        rw [Encoding.means, Encoding.decoded, hnone, hkey]
        exact Nat.zero_lt_one
      · exact .inl ⟨hslips, csiKeys_of_not_slips hslips⟩
    | _ => exact .inl ⟨id, rfl⟩
  have hmore (rest : List Encoding) :
      (rest.flatMap Encoding.means).length ≤ (rest.flatMap Encoding.decoded).length := by
    induction rest with
    | nil => exact le_refl _
    | cons encoding rest ih =>
      rw [flatMap_cons, flatMap_cons, length_append, length_append]
      obtain ⟨-, hsame⟩ | ⟨-, hlonger⟩ := hone encoding
      · rw [hsame]
        omega
      · omega
  induction encodings with
  | nil => simp
  | cons encoding rest ih =>
    rw [flatMap_cons, flatMap_cons, forall_mem_cons]
    obtain ⟨hkeeps, hsame⟩ | ⟨hslips, hlonger⟩ := hone encoding
    · rw [hsame, append_cancel_left_eq, and_iff_right hkeeps]
      exact ih
    · have hlengths := hmore rest
      refine ⟨fun hequal ↦ ?_, fun hboth ↦ absurd hslips hboth.1⟩
      have hlength := congrArg List.length hequal
      rw [length_append, length_append] at hlength
      omega

/-- A text of parameters. -/
abbrev Params := { params : Bytes // ∀ byte ∈ params, isFinal byte = false }

/-- The loop goes over every text to its end. Encodings read as what they mean, and a number as the key of its
exact value, exactly if no number slips. -/
theorem decodes_unless_slips (bytes : Bytes) (encodings : List Encoding) (params : Params) :
    (∃ keys, decodeTuiKeys bytes = some keys) ∧
      (decodeTuiKeys (encodings.flatMap Encoding.written) = some (encodings.flatMap Encoding.means) ↔
        ∀ encoding ∈ encodings, ¬ encoding.Slips) ∧
      (((∃ key, decodeTuiKeys (Encoding.number params.val params.property).written = some [key]) ↔
        (numberKey params.val).isSome) ↔ ¬ Slips params.val) := by
  refine ⟨exists_decodeLoop (le_refl _), ?_, ?_⟩
  · rw [decodeTuiKeys, decodeLoop_encodings (le_refl _), Option.some.injEq]
    exact decoded_eq_means_iff encodings
  · have hdecoded : decodeTuiKeys (Encoding.number params.val params.property).written =
        some (csiKeys params.val tilde) := by
      have hloop : decodeTuiKeys ([.number params.val params.property].flatMap Encoding.written) = _ :=
        decodeLoop_encodings (le_refl _)
      simpa [Encoding.decoded] using hloop
    rw [hdecoded]
    by_cases hslips : Slips params.val
    · obtain ⟨hnone, key, hkey⟩ := csiKeys_of_slips hslips
      simp [hnone, hkey, hslips]
    · rw [csiKeys_of_not_slips hslips]
      cases numberKey params.val <;> simp [keyOf, hslips]

def overflowing : Bytes := ascii "4294967315"

/-- A number no key has reads as F8. -/
theorem unknown_number_deletes : ¬ ∀ params : Params,
    (∃ key, decodeTuiKeys (Encoding.number params.val params.property).written = some [key]) →
      (numberKey params.val).isSome := by
  intro hclaim
  have hkey : decodeTuiKeys (Encoding.number overflowing (by decide +kernel)).written = some [⟨.f8, 0⟩] := by
    decide +kernel
  exact absurd (hclaim ⟨overflowing, by decide +kernel⟩ ⟨_, hkey⟩) (by decide +kernel)

end DhcpServer.Net.TuiKeys
