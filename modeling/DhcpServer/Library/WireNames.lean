import DhcpServer.Library.Bytes

/-!
# Names in a message

A name is a row of labels up to a zero byte. A pointer in place of a label goes on with the labels at another
place of the message. Readers differ in what they put up with: how many pointers, where they may go and how
long the text may be.
-/

namespace DhcpServer.Library.WireNames

open List Option

def kMaskLabelType : UInt8 := 0xC0
def kLabelPointer : UInt8 := 0xC0
def kMaskPointerOffset : UInt8 := 0x3F

structure Limits where
  pointers : Nat
  /-- Whether a pointer at a place may go to another one. -/
  admits : Nat → Nat → Bool
  /-- Whether a label may be added to a text of a length. -/
  fits : Nat → Nat → Bool

def addLabel (text label : Bytes) : Bytes := text ++ (if text.isEmpty then [] else [0x2E]) ++ label

def pointerTarget (first second : UInt8) : Nat :=
  (first &&& kMaskPointerOffset).toNat <<< 8 ||| second.toNat

/-- From `pos` on stands the rest of a name that starts with `text`, and that is `name` as a whole. It ends
before `behind` where it stands. -/
inductive NameAt (limits : Limits) (data : Bytes) : (jumps : Nat) → (text : Bytes) → (pos : Nat) →
    (name : Bytes) → (behind : Nat) → Prop
  | root {jumps : Nat} {text : Bytes} {pos : Nat} (hroot : data[pos]? = some 0) :
    NameAt limits data jumps text pos text (pos + 1)
  | pointer {jumps : Nat} {text : Bytes} {pos : Nat} {first second : UInt8} {name : Bytes} {behind : Nat}
    (hfirst : data[pos]? = some first) (hpointer : first &&& kMaskLabelType = kLabelPointer)
    (hsecond : data[pos + 1]? = some second) (hjumps : jumps < limits.pointers)
    (hadmits : limits.admits pos (pointerTarget first second) = true)
    (hrest : NameAt limits data (jumps + 1) text (pointerTarget first second) name behind) :
    NameAt limits data jumps text pos name (pos + 2)
  | label {jumps : Nat} {text : Bytes} {pos : Nat} {byte : UInt8} {name : Bytes} {behind : Nat}
    (hbyte : data[pos]? = some byte) (hzero : byte ≠ 0) (hlabel : byte &&& kMaskLabelType = 0)
    (hinside : pos + 1 + byte.toNat ≤ data.length) (hfits : limits.fits text.length byte.toNat = true)
    (hrest : NameAt limits data jumps (addLabel text ((data.drop (pos + 1)).take byte.toNat))
      (pos + 1 + byte.toNat) name behind) :
    NameAt limits data jumps text pos name behind

/-- The name from `pos` on and the place behind it, if it is one. -/
def readName (limits : Limits) (data : Bytes) (jumps : Nat) (text : Bytes) (pos : Nat) :
    Option (Bytes × Nat) :=
  if data.length ≤ pos then none
  else
    let byte := data.getD pos 0
    if byte = 0 then some (text, pos + 1)
    else if byte &&& kMaskLabelType = kLabelPointer then
      if data.length ≤ pos + 1 then none
      else
        let target := pointerTarget byte (data.getD (pos + 1) 0)
        if limits.pointers ≤ jumps then none
        else if limits.admits pos target then
          (readName limits data (jumps + 1) text target).map fun found ↦ (found.1, pos + 2)
        else none
    else if byte &&& kMaskLabelType ≠ 0 then none
    else if data.length < pos + 1 + byte.toNat then none
    else if limits.fits text.length byte.toNat then
      readName limits data jumps (addLabel text ((data.drop (pos + 1)).take byte.toNat))
        (pos + 1 + byte.toNat)
    else none
termination_by (limits.pointers - jumps) * (data.length + 1) + (data.length - pos)
decreasing_by
  · -- a pointer may go anywhere, but there is one less to follow
    rename_i hpointers _
    obtain ⟨left, hleft⟩ : ∃ left, limits.pointers - jumps = left + 1 :=
      ⟨limits.pointers - jumps - 1, by omega⟩
    rw [hleft, show limits.pointers - (jumps + 1) = left by omega, Nat.succ_mul]
    omega
  · omega

variable {limits : Limits} {data : Bytes} {jumps pos behind : Nat} {text name : Bytes}

theorem getD_of_byteAt {byte : UInt8} (hbyte : data[pos]? = some byte) :
    pos < data.length ∧ data.getD pos 0 = byte := by
  obtain ⟨hinside, -⟩ := List.getElem?_eq_some_iff.mp hbyte
  exact ⟨hinside, by rw [getD_eq_getElem?_getD, hbyte, getD_some]⟩

theorem byteAt_of_getD (hinside : ¬data.length ≤ pos) : data[pos]? = some (data.getD pos 0) := by
  rw [getD_eq_getElem?_getD, getElem?_eq_getElem (by omega), getD_some]

theorem nameAt_of_readName (hread : readName limits data jumps text pos = some (name, behind)) :
    NameAt limits data jumps text pos name behind := by
  fun_induction readName limits data jumps text pos generalizing behind with
  | case2 =>
    rename_i hinside byte hzero
    cases hread
    exact .root ((byteAt_of_getD hinside).trans (congrArg some hzero))
  | case5 =>
    rename_i hinside byte hzero hpointer hsecond target hjumps hadmits ih
    obtain ⟨found, hfound, heq⟩ := map_eq_some_iff.mp hread
    cases heq
    exact .pointer (byteAt_of_getD hinside) hpointer (byteAt_of_getD hsecond) (not_le.mp hjumps) hadmits
      (ih hfound)
  | case9 =>
    rename_i hinside byte hzero hpointer hlabel hlength hfits ih
    exact .label (byteAt_of_getD hinside) hzero (not_not.mp hlabel) (not_lt.mp hlength) hfits (ih hread)
  | _ => cases hread

theorem readName_of_nameAt (hname : NameAt limits data jumps text pos name behind) :
    readName limits data jumps text pos = some (name, behind) := by
  induction hname with
  | root hroot =>
    obtain ⟨hinside, hbyte⟩ := getD_of_byteAt hroot
    rw [readName, if_neg (by omega)]
    simp only [hbyte, if_true]
  | pointer hfirst hpointer hsecond hjumps hadmits hrest ih =>
    obtain ⟨hinside, hbyte⟩ := getD_of_byteAt hfirst
    obtain ⟨hsecondInside, hsecondByte⟩ := getD_of_byteAt hsecond
    rw [readName, if_neg (by omega)]
    simp only [hbyte, hsecondByte]
    rw [if_neg, if_pos hpointer, if_neg (by omega), if_neg (by omega), if_pos hadmits, ih]
    · rfl
    · rintro rfl
      exact absurd hpointer (by decide)
  | label hbyte hzero hlabel hinside hfits hrest ih =>
    obtain ⟨hpos, heq⟩ := getD_of_byteAt hbyte
    rw [readName, if_neg (by omega)]
    simp only [heq]
    rw [if_neg hzero, if_neg (by rw [hlabel]; decide), if_neg (by simp [hlabel]), if_neg (by omega),
      if_pos hfits, ih]

theorem NameAt.lt (hname : NameAt limits data jumps text pos name behind) :
    pos < behind ∧ pos < data.length := by
  induction hname with
  | root hroot => exact ⟨Nat.lt_succ_self _, (getD_of_byteAt hroot).1⟩
  | pointer hfirst => exact ⟨by omega, (getD_of_byteAt hfirst).1⟩
  | label hbyte _ _ _ _ _ ih => exact ⟨by omega, (getD_of_byteAt hbyte).1⟩

/-- From `pos` on stand the labels and the zero byte, without a pointer. -/
inductive LabelsAt (data : Bytes) : (pos : Nat) → (labels : List Bytes) → (behind : Nat) → Prop
  | root {pos : Nat} (hroot : data[pos]? = some 0) : LabelsAt data pos [] (pos + 1)
  | label {pos : Nat} {byte : UInt8} {labels : List Bytes} {behind : Nat} (hbyte : data[pos]? = some byte)
    (hzero : byte ≠ 0) (hshort : byte.toNat ≤ 63) (hinside : pos + 1 + byte.toNat ≤ data.length)
    (hrest : LabelsAt data (pos + 1 + byte.toNat) labels behind) :
    LabelsAt data pos ((data.drop (pos + 1)).take byte.toNat :: labels) behind

def wireOf (labels : List Bytes) : Bytes :=
  labels.flatMap (fun label ↦ UInt8.ofNat label.length :: label) ++ [0]

theorem wireOf_cons (label : Bytes) (labels : List Bytes) :
    wireOf (label :: labels) = UInt8.ofNat label.length :: label ++ wireOf labels := by
  simp [wireOf]

variable {label : Bytes} {labels : List Bytes}

theorem LabelsAt.ne_nil (hlabels : LabelsAt data pos labels behind) : ∀ label ∈ labels, label ≠ [] := by
  induction hlabels with
  | root => simp
  | @label pos byte labels behind _ hzero _ hinside _ ih =>
    refine forall_mem_cons.mpr ⟨fun hnil ↦ ?_, ih⟩
    have hlength := congrArg List.length hnil
    rw [length_take, length_drop, length_nil] at hlength
    have hnumber : byte.toNat = 0 := by omega
    exact hzero (UInt8.toNat_inj.mp hnumber)

theorem LabelsAt.behind_eq (hlabels : LabelsAt data pos labels behind) :
    behind = pos + (wireOf labels).length := by
  induction hlabels with
  | root => rfl
  | label _ _ _ hinside _ ih =>
    rw [ih, wireOf_cons, length_append, length_cons, length_take, length_drop]
    omega

theorem labelsAt_of_drop {rest : Bytes} (hlabels : ∀ label ∈ labels, label ≠ [] ∧ label.length ≤ 63)
    (hdrop : data.drop pos = wireOf labels ++ rest) :
    LabelsAt data pos labels (pos + (wireOf labels).length) := by
  induction labels generalizing pos with
  | nil =>
    refine .root ?_
    rw [← head?_drop, hdrop]
    rfl
  | cons label labels ih =>
    obtain ⟨⟨hsome, hshort⟩, hrest⟩ := forall_mem_cons.mp hlabels
    have hnumber : (UInt8.ofNat label.length).toNat = label.length := by
      rw [UInt8.toNat_ofNat']
      omega
    rw [wireOf_cons, append_assoc, cons_append] at hdrop
    have hbyte : data[pos]? = some (UInt8.ofNat label.length) := by
      rw [← head?_drop, hdrop]
      rfl
    have hnext : data.drop (pos + 1) = label ++ (wireOf labels ++ rest) := by
      rw [← drop_drop, hdrop]
      rfl
    have hbehind : data.drop (pos + 1 + label.length) = wireOf labels ++ rest := by
      rw [← drop_drop, hnext, drop_left]
    have hinside : pos + 1 + label.length ≤ data.length := by
      have hlength := congrArg List.length hnext
      rw [length_drop, length_append] at hlength
      have hpositive := length_pos_iff.mpr hsome
      omega
    have htake : (data.drop (pos + 1)).take (UInt8.ofNat label.length).toNat = label := by
      rw [hnumber, hnext, take_left]
    have hlater := ih hrest hbehind
    have hzero : UInt8.ofNat label.length ≠ 0 := fun hzero ↦ by
      have hnothing : (UInt8.ofNat label.length).toNat = 0 := congrArg UInt8.toNat hzero
      exact hsome (eq_nil_of_length_eq_zero (hnumber.symm.trans hnothing))
    have hlabel := LabelsAt.label hbyte hzero (by omega) (by omega) (by rwa [hnumber])
    rw [htake] at hlabel
    rw [wireOf_cons, cons_append, length_cons, length_append]
    rwa [show pos + (label.length + (wireOf labels).length + 1) =
      pos + 1 + label.length + (wireOf labels).length by omega]

theorem and_maskLabelType {byte : UInt8} (hshort : byte.toNat ≤ 63) : byte &&& kMaskLabelType = 0 := by
  have hall : ∀ code < 64, UInt8.ofNat code &&& kMaskLabelType = 0 := by
    decide
  have hbyte := hall byte.toNat (by omega)
  rwa [UInt8.ofNat_toNat] at hbyte

theorem toNat_le_of_maskLabelType {byte : UInt8} (hlabel : byte &&& kMaskLabelType = 0) : byte.toNat ≤ 63 := by
  have hall : ∀ code < 256, UInt8.ofNat code &&& kMaskLabelType = 0 → code ≤ 63 := by
    decide +kernel
  have hbyte := hall byte.toNat byte.toNat_lt
  rw [UInt8.ofNat_toNat] at hbyte
  exact hbyte hlabel

theorem LabelsAt.nameAt {room : Nat} (hlabels : LabelsAt data pos labels behind)
    (hfits : ∀ length label, length + label ≤ room → limits.fits length label) (jumps : Nat)
    (text : Bytes) (hroom : text.length + (wireOf labels).length ≤ room + 1) :
    ∃ name, NameAt limits data jumps text pos name behind := by
  induction hlabels generalizing text with
  | root hroot => exact ⟨text, .root hroot⟩
  | @label pos byte labels behind hbyte hzero hshort hinside _ ih =>
    have hlength : ((data.drop (pos + 1)).take byte.toNat).length = byte.toNat := by
      rw [length_take, length_drop]
      omega
    rw [wireOf_cons, cons_append, length_cons, length_append, hlength] at hroom
    have hpositive : 0 < (wireOf labels).length := by simp [wireOf]
    have hadded : (addLabel text ((data.drop (pos + 1)).take byte.toNat)).length ≤
        text.length + 1 + byte.toNat := by
      rw [addLabel, length_append, length_append, hlength]
      split <;> simp
    obtain ⟨name, hname⟩ := ih (addLabel text ((data.drop (pos + 1)).take byte.toNat)) (by omega)
    exact ⟨name, .label hbyte hzero (and_maskLabelType hshort) hinside (hfits _ _ (by omega)) hname⟩

/-- From `pos` on stand the labels, some of them behind pointers. The row ends before `behind` where it
stands. -/
inductive RowAt (data : Bytes) : (pos : Nat) → (labels : List Bytes) → (behind : Nat) → Prop
  | root {pos : Nat} (hroot : data[pos]? = some 0) : RowAt data pos [] (pos + 1)
  | pointer {pos : Nat} {first second : UInt8} {labels : List Bytes} {behind : Nat}
    (hfirst : data[pos]? = some first) (hpointer : first &&& kMaskLabelType = kLabelPointer)
    (hsecond : data[pos + 1]? = some second) (hrest : RowAt data (pointerTarget first second) labels behind) :
    RowAt data pos labels (pos + 2)
  | label {pos : Nat} {byte : UInt8} {labels : List Bytes} {behind : Nat} (hbyte : data[pos]? = some byte)
    (hzero : byte ≠ 0) (hlabel : byte &&& kMaskLabelType = 0) (hinside : pos + 1 + byte.toNat ≤ data.length)
    (hrest : RowAt data (pos + 1 + byte.toNat) labels behind) :
    RowAt data pos ((data.drop (pos + 1)).take byte.toNat :: labels) behind

theorem RowAt.unique {others : List Bytes} {otherBehind : Nat} (hrow : RowAt data pos labels behind)
    (hother : RowAt data pos others otherBehind) : labels = others ∧ behind = otherBehind := by
  induction hrow generalizing others otherBehind with
  | root hroot =>
    cases hother with
    | root => exact ⟨rfl, rfl⟩
    | pointer hfirst hpointer =>
      obtain rfl := Option.some.inj (hroot.symm.trans hfirst)
      exact absurd hpointer (by decide)
    | label hbyte hzero =>
      exact absurd (Option.some.inj (hbyte.symm.trans hroot)) hzero
  | pointer hfirst hpointer hsecond _ ih =>
    cases hother with
    | root hroot =>
      obtain rfl := Option.some.inj (hroot.symm.trans hfirst)
      exact absurd hpointer (by decide)
    | pointer hfirst' _ hsecond' hrest =>
      obtain rfl := Option.some.inj (hfirst.symm.trans hfirst')
      obtain rfl := Option.some.inj (hsecond.symm.trans hsecond')
      exact ⟨(ih hrest).1, rfl⟩
    | label hbyte _ hlabel =>
      obtain rfl := Option.some.inj (hfirst.symm.trans hbyte)
      exact absurd (hlabel.symm.trans hpointer) (by decide)
  | label hbyte hzero hlabel _ _ ih =>
    cases hother with
    | root hroot => exact absurd (Option.some.inj (hbyte.symm.trans hroot)) hzero
    | pointer hfirst hpointer =>
      obtain rfl := Option.some.inj (hfirst.symm.trans hbyte)
      exact absurd (hlabel.symm.trans hpointer) (by decide)
    | label hbyte' _ _ _ hrest =>
      obtain rfl := Option.some.inj (hbyte.symm.trans hbyte')
      obtain ⟨rfl, rfl⟩ := ih hrest
      exact ⟨rfl, rfl⟩

theorem NameAt.rowAt (hname : NameAt limits data jumps text pos name behind) :
    ∃ labels, RowAt data pos labels behind ∧ name = labels.foldl addLabel text := by
  induction hname with
  | root hroot => exact ⟨[], .root hroot, rfl⟩
  | pointer hfirst hpointer hsecond _ _ _ ih =>
    obtain ⟨labels, hrow, hname⟩ := ih
    exact ⟨labels, .pointer hfirst hpointer hsecond hrow, hname⟩
  | label hbyte hzero hlabel hinside _ _ ih =>
    obtain ⟨labels, hrow, hname⟩ := ih
    exact ⟨_, .label hbyte hzero hlabel hinside hrow, hname⟩

theorem RowAt.forall_labels (hrow : RowAt data pos labels behind) :
    ∀ label ∈ labels, label ≠ [] ∧ label.length ≤ 63 := by
  induction hrow with
  | root => exact forall_mem_nil _
  | pointer _ _ _ _ ih => exact ih
  | @label pos byte labels behind hbyte hzero hlabel hinside _ ih =>
    have hlength : ((data.drop (pos + 1)).take byte.toNat).length = byte.toNat := by
      rw [length_take, length_drop]
      omega
    have hpositive : byte.toNat ≠ 0 := fun hnumber ↦ hzero (UInt8.toNat_inj.mp hnumber)
    refine forall_mem_cons.mpr ⟨⟨fun hnil ↦ ?_, ?_⟩, ih⟩
    · rw [hnil] at hlength
      exact hpositive hlength.symm
    · rw [hlength]
      exact toNat_le_of_maskLabelType hlabel

theorem wireOf_inj {others : List Bytes} (hlabels : ∀ label ∈ labels, label.length ≤ 63)
    (hothers : ∀ label ∈ others, label.length ≤ 63) (hwire : wireOf labels = wireOf others) :
    labels = others := by
  have hlength (first : Bytes) (rest : List Bytes) : 1 < (wireOf (first :: rest)).length := by
    rw [wireOf_cons, length_append, length_cons]
    have hend : 0 < (wireOf rest).length := by simp [wireOf]
    omega
  induction labels generalizing others with
  | nil =>
    cases others with
    | nil => rfl
    | cons other others => exact absurd (hlength other others) (hwire ▸ lt_irrefl 1)
  | cons label labels ih =>
    cases others with
    | nil => exact absurd (hlength label labels) (hwire ▸ lt_irrefl 1)
    | cons other others =>
      obtain ⟨hshort, hrest⟩ := forall_mem_cons.mp hlabels
      obtain ⟨hotherShort, hotherRest⟩ := forall_mem_cons.mp hothers
      rw [wireOf_cons, wireOf_cons, cons_append, cons_append] at hwire
      obtain ⟨hnumber, hbytes⟩ := cons.inj hwire
      have hsame : label.length = other.length := by
        have hnumbers := congrArg UInt8.toNat hnumber
        rw [UInt8.toNat_ofNat', UInt8.toNat_ofNat'] at hnumbers
        omega
      obtain ⟨rfl, hmore⟩ := append_inj hbytes hsame
      rw [ih hrest hotherRest hmore]

end DhcpServer.Library.WireNames
