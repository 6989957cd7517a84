import DhcpServer.Storage.PathUtil
import Mathlib.Data.List.Induction

/-!
# What the path policy promises

`normalize` keeps the components of a text that say something and refuses the text for one that is no
name or for its size. What it accepts is in the one form that it gives, is put together again from its
parent and its last name, and is never the temporary file of another accepted path as the two are
written.
-/

namespace DhcpServer.Storage.PathUtil

open Library List Option

def join (mountPoint relPath : Bytes) : Bytes :=
  if relPath = [] ∨ relPath = [slash] then mountPoint
  else
    let out := if mountPoint.getLast? = some slash then mountPoint.dropLast else mountPoint
    out ++ if relPath.head? = some slash then relPath else slash :: relPath

def components (raw : Bytes) : List Bytes := raw.splitOn slash

def saysSomething (component : Bytes) : Bool := component != [] && component != [dot]

def kept (raw : Bytes) : List Bytes := (components raw).filter saysSomething

/-- A component climbs, or is no name, or there is too much of them. -/
def Refused (raw : Bytes) : Prop :=
  [dot, dot] ∈ components raw ∨ (∃ component ∈ kept raw, isValidName component = false) ∨
    kMaxDepth < (kept raw).length ∨ kMaxPathLen < (buildPath (kept raw)).length

/-- The root, or at most sixteen names behind a slash each, none of which is a dot or two. -/
structure IsNormal (path : Bytes) : Prop where
  names : path = [slash] ∨ ∃ segments, path = joined slash segments ∧ segments.length ≤ kMaxDepth ∧
    ∀ name ∈ segments, isValidName name = true ∧ name ≠ [dot] ∧ name ≠ [dot, dot]
  length : path.length ≤ kMaxPathLen

def bare (mountPoint : Bytes) : Bytes :=
  if mountPoint.getLast? = some slash then mountPoint.dropLast else mountPoint

/-- What a path is good for once `normalize` has given it. -/
structure Accepted (path : Bytes) : Prop where
  normal : IsNormal path
  again : normalize path = some path
  child : path ≠ [slash] → normalizeChild (parent path) (basename path) = some path
  joins : ∀ mountPoint, join mountPoint path = if path = [slash] then mountPoint else bare mountPoint ++ path
  reserved : path ≠ [slash] → ∀ raw, normalize raw ≠ some (path ++ kUploadPartSuffix)

variable {raw path : Bytes} {segments before pieces : List Bytes} {name : Bytes}

theorem saysSomething_iff : saysSomething name ↔ ¬(name = [] ∨ name = [dot]) := by
  simp [saysSomething]

theorem pushSegment_silent (hsilent : ¬saysSomething name) : pushSegment before name = some before :=
  if_pos (not_not.mp fun hnot ↦ hsilent (saysSomething_iff.mpr hnot))

theorem foldlM_pushSegment_filter (hfold : pieces.foldlM pushSegment before = some segments) :
    segments = before ++ pieces.filter saysSomething := by
  induction pieces generalizing before with
  | nil =>
    cases hfold
    rw [filter_nil, append_nil]
  | cons piece pieces ih =>
    rw [foldlM_cons] at hfold
    by_cases hsays : saysSomething piece
    · obtain ⟨middle, hpush, hrest⟩ := bind_eq_some_iff.mp hfold
      rw [pushSegment, if_neg (saysSomething_iff.mp hsays)] at hpush
      split_ifs at hpush
      cases hpush
      rw [ih hrest, filter_cons_of_pos hsays, append_assoc, singleton_append]
    · rw [pushSegment_silent hsays] at hfold
      rw [ih hfold, filter_cons_of_neg hsays]

theorem foldlM_pushSegment_of_valid (hnames : ∀ name ∈ pieces.filter saysSomething, isValidName name)
    (hdepth : (before ++ pieces.filter saysSomething).length ≤ kMaxDepth) :
    pieces.foldlM pushSegment before = some (before ++ pieces.filter saysSomething) := by
  induction pieces generalizing before with
  | nil => rw [filter_nil, append_nil]; rfl
  | cons piece pieces ih =>
    rw [foldlM_cons]
    by_cases hsays : saysSomething piece
    · rw [filter_cons_of_pos hsays] at hnames hdepth ⊢
      obtain ⟨hname, hnames⟩ := forall_mem_cons.mp hnames
      have hvalid := validName_of_isValidName hname
      have hroom : ¬kMaxDepth < before.length + 1 := by
        rw [length_append, length_cons] at hdepth
        omega
      have hpush : pushSegment before piece = some (before ++ [piece]) := by
        simp [pushSegment, hname, hvalid.ne_nil, hvalid.ne_dot, hvalid.ne_dotDot, hroom]
      rw [hpush, bind_eq_bind, bind_some, ih hnames (by simpa using hdepth), append_assoc, singleton_append]
    · rw [filter_cons_of_neg hsays] at hnames hdepth ⊢
      rw [pushSegment_silent hsays]
      exact ih hnames hdepth

theorem splitSegments_eq_kept (hsplit : splitSegments raw = some segments) : segments = kept raw :=
  foldlM_pushSegment_filter hsplit

theorem normalize_eq_some_iff_kept :
    normalize raw = some path ↔ Addressable (kept raw) ∧ path = buildPath (kept raw) := by
  rw [normalize_eq_some_iff]
  constructor
  · rintro ⟨segments, hsplit, haddr, hpath⟩
    obtain rfl := splitSegments_eq_kept hsplit
    exact ⟨haddr, hpath⟩
  · rintro ⟨haddr, hpath⟩
    have hsplit : splitSegments raw = some (kept raw) := foldlM_pushSegment_of_valid haddr.names haddr.depth
    exact ⟨kept raw, hsplit, haddr, hpath⟩

/-- A text is refused for a component that climbs or is no name, or for its size, and for nothing else. -/
theorem normalize_eq_none_iff : normalize raw = none ↔ Refused raw := by
  have hclimbs : [dot, dot] ∈ components raw → ∃ component ∈ kept raw, isValidName component = false :=
    fun hmem ↦ ⟨[dot, dot], mem_filter.mpr ⟨hmem, rfl⟩, rfl⟩
  have haccepted : normalize raw = none ↔ ¬Addressable (kept raw) := by
    constructor
    · intro hnone haddr
      rw [normalize_eq_some_iff_kept.mpr ⟨haddr, rfl⟩] at hnone
      cases hnone
    · intro hnot
      cases hresult : normalize raw with
      | none => rfl
      | some path => exact absurd (normalize_eq_some_iff_kept.mp hresult).1 hnot
  rw [haccepted]
  constructor
  · intro hnot
    by_contra hfine
    obtain ⟨-, hrest⟩ := not_or.mp hfine
    obtain ⟨hnames, hrest⟩ := not_or.mp hrest
    obtain ⟨hdepth, hlength⟩ := not_or.mp hrest
    refine hnot ⟨fun name hname ↦ ?_, not_lt.mp hdepth, not_lt.mp hlength⟩
    exact Bool.not_eq_false _ ▸ fun hinvalid ↦ hnames ⟨name, hname, hinvalid⟩
  · rintro hrefused ⟨hnames, hdepth, hlength⟩
    have hall : ¬∃ component ∈ kept raw, isValidName component = false := by
      rintro ⟨component, hmem, hinvalid⟩
      rw [hnames component hmem] at hinvalid
      cases hinvalid
    rcases hrefused with hup | hinvalid | hdeep | hlong
    · exact hall (hclimbs hup)
    · exact hall hinvalid
    · exact absurd hdepth (not_le.mpr hdeep)
    · exact absurd hlength (not_le.mpr hlong)

theorem Addressable.isNormal (haddr : Addressable segments) : IsNormal (buildPath segments) := by
  refine ⟨?_, haddr.length⟩
  unfold buildPath
  split_ifs with hnil
  · exact .inl rfl
  · refine .inr ⟨segments, rfl, haddr.depth, fun name hname ↦ ?_⟩
    have hvalid := validName_of_isValidName (haddr.names name hname)
    exact ⟨haddr.names name hname, hvalid.ne_dot, hvalid.ne_dotDot⟩

theorem normalizeChild_parent_basename (haddr : Addressable segments)
    (hroot : buildPath segments ≠ [slash]) :
    normalizeChild (parent (buildPath segments)) (basename (buildPath segments)) =
      some (buildPath segments) := by
  cases segments using reverseRecOn with
  | nil => exact absurd rfl hroot
  | append_singleton dir name =>
    have hname := validName_of_isValidName (haddr.names name (by simp))
    rw [parent_buildPath hname, basename_buildPath hname, normalizeChild_buildPath haddr.of_append,
      if_pos haddr]

theorem head_buildPath (segments : List Bytes) : (buildPath segments).head? = some slash := by
  unfold buildPath
  split_ifs with hnil
  · rfl
  · obtain ⟨name, rest, rfl⟩ := exists_cons_of_ne_nil hnil
    rfl

theorem join_buildPath (mountPoint : Bytes) : join mountPoint (buildPath segments) =
      if buildPath segments = [slash] then mountPoint else bare mountPoint ++ buildPath segments := by
  have hfront := head_buildPath segments
  have hne : buildPath segments ≠ [] := by
    intro hnil
    rw [hnil] at hfront
    cases hfront
  unfold join
  by_cases hroot : buildPath segments = [slash]
  · rw [if_pos (.inr hroot), if_pos hroot]
  · rw [if_neg (not_or.mpr ⟨hne, hroot⟩), if_neg hroot, if_pos hfront, bare]

theorem not_addressable_part (haddr : Addressable segments) (hroot : buildPath segments ≠ [slash]) :
    ∀ others, Addressable others → buildPath others ≠ buildPath segments ++ kUploadPartSuffix := by
  intro others hothers hsame
  cases segments using reverseRecOn with
  | nil => exact hroot rfl
  | append_singleton dir name =>
    have hname := validName_of_isValidName (haddr.names name (by simp))
    have hpart : buildPath (dir ++ [name]) ++ kUploadPartSuffix =
        joined slash (dir ++ [name ++ kUploadPartSuffix]) := by
      simp [buildPath]
    have hfree : slash ∉ name ++ kUploadPartSuffix := by
      intro hmem
      rcases mem_append.mp hmem with hold | hnew
      · exact hname.slash_notMem hold
      · revert hnew
        decide
    have hsegments : ∀ segment ∈ dir ++ [name ++ kUploadPartSuffix], slash ∉ segment := by
      refine forall_mem_append.mpr ⟨slash_free haddr.of_append.names, ?_⟩
      exact forall_mem_singleton.mpr hfree
    rw [hpart, buildPath] at hsame
    split_ifs at hsame with hnil
    · have hlength := congrArg List.length hsame
      have hlong : 0 < kUploadPartSuffix.length := by decide
      simp at hlength
      omega
    · have hothersEq := joined_injective (slash_free hothers.names) hsegments hsame
      have hmem : name ++ kUploadPartSuffix ∈ others := by simp [hothersEq]
      have hvalid := validName_of_isValidName (hothers.names _ hmem)
      have hpartName : isPartName (name ++ kUploadPartSuffix) := by
        have hlong : 0 < name.length := length_pos_iff.mpr hname.ne_nil
        simp [isPartName, hlong]
      rw [hvalid.not_part] at hpartName
      cases hpartName

theorem Addressable.accepted (haddr : Addressable segments) : Accepted (buildPath segments) where
  normal := haddr.isNormal
  again := normalize_buildPath haddr
  child := normalizeChild_parent_basename haddr
  joins := join_buildPath
  reserved := by
    intro hroot raw hpart
    obtain ⟨hothers, hpath⟩ := normalize_eq_some_iff_kept.mp hpart
    exact not_addressable_part haddr hroot (kept raw) hothers hpath.symm

theorem path_policy (raw : Bytes) :
    (normalize raw = none ↔ Refused raw) ∧ ∀ path, normalize raw = some path → Accepted path := by
  refine ⟨normalize_eq_none_iff, fun path hnormal ↦ ?_⟩
  obtain ⟨haddr, rfl⟩ := normalize_eq_some_iff_kept.mp hnormal
  exact haddr.accepted

theorem path_policy_of_nested : Accepted (ascii "/a/b.txt") :=
  (path_policy (ascii "a//./b.txt/")).2 (ascii "/a/b.txt") (by decide)

/-- The root adds nothing to a mount point, and a volume that ignores case finds `/a.PART` for the
temporary file of `/a`. -/
theorem root_joined_and_upper_case_part : (normalize (ascii "/") = some (ascii "/") ∧
      join (ascii "/fat") (ascii "/") ≠ ascii "/fat" ++ ascii "/") ∧
    normalize (ascii "a") = some (ascii "/a") ∧ normalize (ascii "a.PART") = some (ascii "/a.PART") ∧
      (ascii "/a.PART").map toLower = (ascii "/a" ++ kUploadPartSuffix).map toLower := by
  decide

end DhcpServer.Storage.PathUtil
