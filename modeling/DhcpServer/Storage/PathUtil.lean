import DhcpServer.Library.Bytes
import DhcpServer.Library.Segments

/-!
# Path policy of the volumes

`PathUtil` on strings of bytes. A normalized path is the text of a list of valid names; `Addressable`
says which lists these are, and for each function a lemma says what it does to them.
-/

namespace DhcpServer.Storage.PathUtil

open Library List Option

def kMaxPathLen : Nat := 255
def kMaxSegmentLen : Nat := 128
def kMaxDepth : Nat := 16
def kUploadPartSuffix : Bytes := ascii ".part"

def slash : UInt8 := 0x2F
def dot : UInt8 := 0x2E
def space : UInt8 := 0x20

/-- Neither a control character, nor a separator, nor one that FAT forbids. -/
def isValidChar (byte : UInt8) : Bool :=
  0x20 ≤ byte && byte != 0x7F && byte != slash && byte != 0x5C && byte != 0x22 && byte != 0x2A &&
    byte != 0x3C && byte != 0x3E && byte != 0x3F && byte != 0x7C && byte != 0x3A

def isPartName (name : Bytes) : Bool :=
  kUploadPartSuffix.length < name.length && kUploadPartSuffix.isSuffixOf name

def isValidName (name : Bytes) : Bool :=
  name != [] && name.length ≤ kMaxSegmentLen && name != [dot] && name != [dot, dot] &&
    !isPartName name && name.getLast? != some dot && name.getLast? != some space &&
    name.all isValidChar

/-- One round of the loop of `splitSegments`. -/
def pushSegment (segments : List Bytes) (segment : Bytes) : Option (List Bytes) :=
  if segment = [] ∨ segment = [dot] then some segments
  else if segment = [dot, dot] then none
  else if !isValidName segment then none
  else if kMaxDepth < segments.length + 1 then none
  else some (segments ++ [segment])

def splitSegments (path : Bytes) : Option (List Bytes) := (path.splitOn slash).foldlM pushSegment []

def buildPath (segments : List Bytes) : Bytes := if segments = [] then [slash] else joined slash segments

def normalize (raw : Bytes) : Option Bytes := do
  let segments ← splitSegments raw
  let normalized := buildPath segments
  if kMaxPathLen < normalized.length then none else some normalized

def normalizeChild (dir name : Bytes) : Option Bytes :=
  if !isValidName name then none
  else do
    let segments ← splitSegments dir
    if kMaxDepth < (segments ++ [name]).length then none
    else
      let normalized := buildPath (segments ++ [name])
      if kMaxPathLen < normalized.length then none else some normalized

def parent (path : Bytes) : Bytes :=
  if path = [] ∨ path = [slash] then [slash]
  else
    match path.reverse.dropWhile (· ≠ slash) with
    | [] | [_] => [slash]
    | _ :: before => before.reverse

def basename (path : Bytes) : Bytes :=
  if path = [] ∨ path = [slash] then [] else (path.reverse.takeWhile (· ≠ slash)).reverse

/-- What is known of a name that can be written in a path. -/
structure ValidName (name : Bytes) : Prop where
  ne_nil : name ≠ []
  slash_notMem : slash ∉ name
  ne_dot : name ≠ [dot]
  ne_dotDot : name ≠ [dot, dot]
  not_part : isPartName name = false

structure EntryName (name : Bytes) : Prop where
  ne_nil : name ≠ []
  ne_dot : name ≠ [dot]
  ne_dotDot : name ≠ [dot, dot]
  slash_notMem : slash ∉ name

instance (name : Bytes) : Decidable (EntryName name) :=
  decidable_of_iff (name ≠ [] ∧ name ≠ [dot] ∧ name ≠ [dot, dot] ∧ slash ∉ name)
    ⟨fun ⟨hnil, hdot, hdots, hslash⟩ ↦ ⟨hnil, hdot, hdots, hslash⟩,
      fun hname ↦ ⟨hname.ne_nil, hname.ne_dot, hname.ne_dotDot, hname.slash_notMem⟩⟩

theorem ValidName.entryName {name : Bytes} (hname : ValidName name) : EntryName name :=
  ⟨hname.ne_nil, hname.ne_dot, hname.ne_dotDot, hname.slash_notMem⟩

theorem validName_of_isValidName {name : Bytes} (hname : isValidName name) : ValidName name := by
  simp only [isValidName, Bool.and_eq_true, bne_iff_ne, decide_eq_true_eq, Bool.not_eq_true',
    List.all_eq_true] at hname
  obtain ⟨⟨⟨⟨⟨⟨⟨hnil, -⟩, hdot⟩, hdots⟩, hpart⟩, -⟩, -⟩, hchars⟩ := hname
  refine ⟨hnil, fun hslash ↦ ?_, hdot, hdots, hpart⟩
  have hvalid := hchars slash hslash
  revert hvalid
  decide

/-- The names of a path that `normalize` can give. -/
structure Addressable (segments : List Bytes) : Prop where
  names : ∀ name ∈ segments, isValidName name = true
  depth : segments.length ≤ kMaxDepth
  length : (buildPath segments).length ≤ kMaxPathLen

variable {segments others dir : List Bytes} {name raw path : Bytes}

instance (segments : List Bytes) : Decidable (Addressable segments) :=
  decidable_of_iff
    ((∀ name ∈ segments, isValidName name = true) ∧ segments.length ≤ kMaxDepth ∧
      (buildPath segments).length ≤ kMaxPathLen)
    ⟨fun ⟨hnames, hdepth, hlength⟩ ↦ ⟨hnames, hdepth, hlength⟩,
      fun haddr ↦ ⟨haddr.names, haddr.depth, haddr.length⟩⟩

theorem slash_free (hnames : ∀ name ∈ segments, isValidName name) :
    ∀ name ∈ segments, slash ∉ name :=
  fun name hmem ↦ (validName_of_isValidName (hnames name hmem)).slash_notMem

theorem Addressable.entryNames (haddr : Addressable segments) : ∀ name ∈ segments, EntryName name :=
  fun name hname ↦ (validName_of_isValidName (haddr.names name hname)).entryName

theorem buildPath_concat (dir : List Bytes) (name : Bytes) :
    buildPath (dir ++ [name]) = joined slash dir ++ slash :: name := by
  simp [buildPath]

theorem length_joined_le (segments : List Bytes) :
    (joined slash segments).length ≤ (buildPath segments).length := by
  unfold buildPath
  split_ifs with hnil
  · simp [hnil]
  · exact le_rfl

theorem Addressable.of_append (haddr : Addressable (dir ++ others)) : Addressable dir := by
  obtain ⟨hnames, hdepth, hlength⟩ := haddr
  rw [length_append] at hdepth
  refine ⟨fun name hmem ↦ hnames name (mem_append_left _ hmem), by omega, ?_⟩
  unfold buildPath
  split_ifs with hnil
  · decide
  · have hjoined := (length_joined_le (dir ++ others)).trans hlength
    rw [joined_append, length_append] at hjoined
    omega

theorem foldlM_pushSegment (hnames : ∀ name ∈ others, isValidName name)
    (hdepth : (segments ++ others).length ≤ kMaxDepth) :
    others.foldlM pushSegment segments = some (segments ++ others) := by
  induction others generalizing segments with
  | nil => simp
  | cons name others ih =>
    obtain ⟨hname, hnames⟩ := forall_mem_cons.mp hnames
    have hvalid := validName_of_isValidName hname
    have hroom : ¬kMaxDepth < segments.length + 1 := by
      simp only [length_append, length_cons] at hdepth
      omega
    have hpush : pushSegment segments name = some (segments ++ [name]) := by
      simp [pushSegment, hname, hvalid.ne_nil, hvalid.ne_dot, hvalid.ne_dotDot, hroom]
    rw [foldlM_cons, hpush]
    change others.foldlM pushSegment (segments ++ [name]) = _
    rw [ih hnames (by simpa using hdepth), append_assoc, singleton_append]

theorem splitSegments_joined (hnames : ∀ name ∈ segments, isValidName name)
    (hdepth : segments.length ≤ kMaxDepth) :
    splitSegments (joined slash segments) = some segments := by
  rw [splitSegments, splitOn_joined (slash_free hnames), foldlM_cons]
  exact foldlM_pushSegment hnames hdepth

theorem splitSegments_buildPath (hnames : ∀ name ∈ segments, isValidName name)
    (hdepth : segments.length ≤ kMaxDepth) : splitSegments (buildPath segments) = some segments := by
  unfold buildPath
  split_ifs with hnil
  · subst hnil
    decide
  · exact splitSegments_joined hnames hdepth

variable {pieces before : List Bytes}

theorem foldlM_pushSegment_spec
    (hnames : ∀ name ∈ before, isValidName name) (hdepth : before.length ≤ kMaxDepth)
    (hfold : pieces.foldlM pushSegment before = some segments) :
    (∀ name ∈ segments, isValidName name = true) ∧ segments.length ≤ kMaxDepth := by
  induction pieces generalizing before with
  | nil =>
    cases hfold
    exact ⟨hnames, hdepth⟩
  | cons piece pieces ih =>
    rw [foldlM_cons] at hfold
    obtain ⟨middle, hpush, hrest⟩ := bind_eq_some_iff.mp hfold
    unfold pushSegment at hpush
    split_ifs at hpush with _ _ hname hroom
    · cases hpush
      exact ih hnames hdepth hrest
    · cases hpush
      refine ih ?_ (by simpa using hroom) hrest
      intro name hmem
      rcases mem_append.mp hmem with hold | hnew
      · exact hnames name hold
      · rw [mem_singleton.mp hnew]
        simpa using hname

theorem splitSegments_spec (hsplit : splitSegments raw = some segments) :
    (∀ name ∈ segments, isValidName name = true) ∧ segments.length ≤ kMaxDepth :=
  foldlM_pushSegment_spec (by simp) (by decide) hsplit

theorem pieces_of_foldlM_pushSegment (hfold : pieces.foldlM pushSegment before = some segments) :
    ∀ piece ∈ pieces, piece = [] ∨ piece = [dot] ∨ isValidName piece := by
  induction pieces generalizing before with
  | nil => exact fun piece hpiece ↦ absurd hpiece not_mem_nil
  | cons piece pieces ih =>
    rw [foldlM_cons] at hfold
    obtain ⟨middle, hpush, hrest⟩ := bind_eq_some_iff.mp hfold
    refine forall_mem_cons.mpr ⟨?_, ih hrest⟩
    unfold pushSegment at hpush
    split_ifs at hpush with hempty _ hname
    · exact hempty.imp_right .inl
    · exact .inr (.inr (by simpa using hname))

theorem valid_of_normalize (hnormal : (normalize raw).isSome) :
    ∀ byte ∈ raw, byte = slash ∨ isValidChar byte := by
  obtain ⟨path, hpath⟩ := isSome_iff_exists.mp hnormal
  obtain ⟨segments, hsplit, -⟩ := bind_eq_some_iff.mp hpath
  intro byte hbyte
  refine (mem_splitOn_of_mem hbyte).imp_right fun ⟨piece, hpiece, hmem⟩ ↦ ?_
  rcases pieces_of_foldlM_pushSegment hsplit piece hpiece with rfl | rfl | hname
  · exact absurd hmem not_mem_nil
  · rw [mem_singleton.mp hmem]
    decide
  · simp only [isValidName, Bool.and_eq_true, List.all_eq_true] at hname
    exact hname.2 byte hmem

theorem foldlM_pushSegment_eq (hnames : ∀ piece ∈ pieces, EntryName piece)
    (hfold : pieces.foldlM pushSegment before = some segments) : segments = before ++ pieces := by
  induction pieces generalizing before with
  | nil =>
    cases hfold
    rw [append_nil]
  | cons piece pieces ih =>
    obtain ⟨hpiece, hnames⟩ := forall_mem_cons.mp hnames
    rw [foldlM_cons] at hfold
    obtain ⟨middle, hpush, hrest⟩ := bind_eq_some_iff.mp hfold
    unfold pushSegment at hpush
    split_ifs at hpush with hempty
    · exact absurd hempty (by simp [hpiece.ne_nil, hpiece.ne_dot])
    · cases hpush
      rw [ih hnames hrest, append_assoc, singleton_append]

theorem splitSegments_buildPath_eq (hnames : ∀ name ∈ others, EntryName name)
    (hsplit : splitSegments (buildPath others) = some segments) : segments = others := by
  by_cases hnil : others = []
  · subst hnil
    have hroot : splitSegments (buildPath []) = some [] := by decide
    rw [hroot] at hsplit
    exact (Option.some.inj hsplit).symm
  · rw [splitSegments, buildPath, if_neg hnil,
      splitOn_joined fun name hmem ↦ (hnames name hmem).slash_notMem, foldlM_cons] at hsplit
    exact foldlM_pushSegment_eq hnames hsplit

theorem normalize_eq_some_iff : normalize raw = some path ↔
      ∃ segments, splitSegments raw = some segments ∧ Addressable segments ∧ path = buildPath segments := by
  simp only [normalize, bind_eq_bind, bind_eq_some_iff, ite_eq_iff]
  constructor
  · rintro ⟨segments, hsplit, ⟨-, hnone⟩ | ⟨hlength, hpath⟩⟩
    · cases hnone
    · obtain ⟨hnames, hdepth⟩ := splitSegments_spec hsplit
      exact ⟨segments, hsplit, ⟨hnames, hdepth, not_lt.mp hlength⟩, (Option.some.inj hpath).symm⟩
  · rintro ⟨segments, hsplit, haddr, rfl⟩
    exact ⟨segments, hsplit, .inr ⟨not_lt.mpr haddr.length, rfl⟩⟩

theorem normalize_buildPath (haddr : Addressable segments) :
    normalize (buildPath segments) = some (buildPath segments) :=
  normalize_eq_some_iff.mpr
    ⟨segments, splitSegments_buildPath haddr.names haddr.depth, haddr, rfl⟩

theorem normalizeChild_buildPath (haddr : Addressable dir) : normalizeChild (buildPath dir) name =
      if Addressable (dir ++ [name]) then some (buildPath (dir ++ [name])) else none := by
  unfold normalizeChild
  rw [splitSegments_buildPath haddr.names haddr.depth]
  by_cases hname : isValidName name
  · simp only [hname, Bool.not_true, Bool.false_eq_true, if_false, bind_eq_bind, bind_some]
    by_cases hchild : Addressable (dir ++ [name])
    · rw [if_neg (not_lt.mpr hchild.depth), if_neg (not_lt.mpr hchild.length), if_pos hchild]
    · rw [if_neg hchild]
      split_ifs with hdepth hlength
      · rfl
      · rfl
      · refine absurd ⟨?_, not_lt.mp hdepth, not_lt.mp hlength⟩ hchild
        intro same hsame
        rcases mem_append.mp hsame with hold | hnew
        · exact haddr.names same hold
        · rwa [mem_singleton.mp hnew]
  · have hchild : ¬Addressable (dir ++ [name]) :=
      fun hchild ↦ hname (hchild.names name (by simp))
    simp [hname, hchild]

theorem joined_concat_long (dir : List Bytes) (hname : ValidName name) :
    ¬(joined slash (dir ++ [name]) = [] ∨ joined slash (dir ++ [name]) = [slash]) := by
  have hone : 0 < name.length := length_pos_iff.mpr hname.ne_nil
  rintro (hnil | hroot)
  · simpa using congrArg List.length hnil
  · have hlength := congrArg List.length hroot
    simp at hlength
    omega

theorem buildPath_concat_ne_slash (dir : List Bytes) (hname : ValidName name) :
    buildPath (dir ++ [name]) ≠ [slash] := by
  rw [buildPath, if_neg (by simp)]
  exact fun hroot ↦ joined_concat_long dir hname (.inr hroot)

theorem basename_buildPath (hname : ValidName name) : basename (buildPath (dir ++ [name])) = name := by
  have hbuild : buildPath (dir ++ [name]) = joined slash (dir ++ [name]) := by simp [buildPath]
  rw [hbuild, basename, if_neg (joined_concat_long dir hname), takeWhile_reverse_joined hname.slash_notMem]

theorem parent_buildPath (hname : ValidName name) : parent (buildPath (dir ++ [name])) = buildPath dir := by
  have hbuild : buildPath (dir ++ [name]) = joined slash (dir ++ [name]) := by simp [buildPath]
  rw [hbuild, parent, if_neg (joined_concat_long dir hname), dropWhile_reverse_joined hname.slash_notMem]
  unfold buildPath
  cases hbefore : (joined slash dir).reverse with
  | nil =>
    have hdir : dir = [] := joined_eq_nil.mp (reverse_eq_nil_iff.mp hbefore)
    simp [hdir]
  | cons last before =>
    have hdir : dir ≠ [] := by
      rintro rfl
      cases hbefore
    rw [if_neg hdir]
    simp [← hbefore]

theorem buildPath_injective (hsegments : ∀ name ∈ segments, isValidName name)
    (hothers : ∀ name ∈ others, isValidName name)
    (hbuild : buildPath segments = buildPath others) : segments = others := by
  have hroot {names : List Bytes} (hnames : ∀ name ∈ names, isValidName name = true)
      (hpath : joined slash names = [slash]) : False := by
    cases names with
    | nil => cases hpath
    | cons name names =>
      have hname := (validName_of_isValidName (hnames name mem_cons_self)).ne_nil
      simp [hname] at hpath
  unfold buildPath at hbuild
  split_ifs at hbuild with hfirst hsecond hsecond
  · rw [hfirst, hsecond]
  · exact (hroot hothers hbuild.symm).elim
  · exact (hroot hsegments hbuild).elim
  · exact joined_injective (slash_free hsegments) (slash_free hothers) hbuild

theorem buildPath_prefix_iff (hsegments : ∀ name ∈ segments, isValidName name)
    (hothers : ∀ name ∈ others, isValidName name) (hroot : segments ≠ []) :
    buildPath segments ++ [slash] <+: buildPath others ↔ segments <+: others ∧ segments ≠ others := by
  rw [buildPath, if_neg hroot]
  by_cases hnil : others = []
  · subst hnil
    obtain ⟨name, rest, rfl⟩ := exists_cons_of_ne_nil hroot
    have hlong : ¬joined slash (name :: rest) ++ [slash] <+: buildPath [] := by
      intro hbelow
      have hlength := hbelow.length_le
      simp [buildPath] at hlength
    exact iff_of_false hlong fun hinside ↦ hroot (prefix_nil.mp hinside.1)
  · rw [buildPath, if_neg hnil]
    exact joined_append_prefix_iff (slash_free hsegments) (slash_free hothers)

end DhcpServer.Storage.PathUtil
