import DhcpServer.Library.DirectoryWalk
import DhcpServer.Storage.PathUtil

/-!
# The sandbox of the file commands

`FileShellPath` decides which paths the shell may name at all. Its functions work on texts; a place
is what a text it accepts stands for, a volume and the directories below its root. Resolving a name
is a walk from a place, with the root of the volume as its ceiling.
-/

namespace DhcpServer.Net.FileShellPath

open Library Storage.PathUtil List

def kVolumes : List Bytes := [ascii "/fat", ascii "/sdcard"]

/-- The test that `startsWithVolume` and `volumeOf` make for each volume. -/
def beginsWith (volume text : Bytes) : Bool :=
  text.take volume.length == volume &&
    (text.length == volume.length || text[volume.length]? == some slash)

def startsWithVolume (name : Bytes) : Bool := kVolumes.any fun volume ↦ beginsWith volume name

def volumeOf (absolute : Bytes) : Bytes := (kVolumes.find? fun volume ↦ beginsWith volume absolute).getD []

def hasControlByte (text : Bytes) : Bool := text.any (· < 0x20)

def trimmedSlashes (text : Bytes) : Bytes :=
  if 1 < text.length ∧ text.getLast? = some slash then trimmedSlashes text.dropLast else text
termination_by text.length
decreasing_by
  rw [length_dropLast]
  omega

def namesIn (path : Bytes) : List Bytes := (path.splitOn slash).filter (· ≠ [])

/-- One round of the loop over the typed name; `none`: the name leaves the volume. -/
def pushPart (parts : List Bytes) (part : Bytes) : Option (List Bytes) :=
  if part = [] ∨ part = [dot] then some parts
  else if part = [dot, dot] then if parts = [] then none else some parts.dropLast
  else some (parts ++ [part])

def appendPart (out part : Bytes) : Bytes :=
  (if out.getLast? ≠ some slash then out ++ [slash] else out) ++ part

def foldParts (base : Bytes) (parts : List Bytes) (rest : Bytes) : Except Bytes Bytes :=
  match (rest.splitOn slash).foldlM pushPart parts with
  | none => .error (ascii "a path cannot leave its volume")
  | some parts => .ok (trimmedSlashes (parts.foldl appendPart base))

/-- The volume of the current directory, the first one where it has none. -/
def ownVolume (current : Bytes) : Bytes :=
  if volumeOf current = [] then kVolumes.headD [] else volumeOf current

/-- An error is `*why`, and the source then returns an empty path. -/
def resolve (current typed : Bytes) : Except Bytes Bytes :=
  if typed = [] then .ok current
  else if hasControlByte typed then .error (ascii "a path cannot hold control symbols")
  else if typed.head? = some slash then
    if startsWithVolume typed then
      foldParts (volumeOf typed) [] (typed.drop (volumeOf typed).length)
    else .error (ascii "a path starts with /fat or /sdcard")
  else
    foldParts (ownVolume current) (namesIn (current.drop (ownVolume current).length)) typed

def changeTo (current typed : Bytes) : Except Bytes Bytes :=
  if typed = [] then .ok (ownVolume current) else resolve current typed

inductive Call
  | changeTo (typed : Bytes)
  | resolve (typed : Bytes)

def Call.next (current : Bytes) : Call → Bytes
  | changeTo typed =>
    match FileShellPath.changeTo current typed with
    | .ok target => target
    | .error _ => current
  | resolve _ => current

def currentAfter (calls : List Call) : Bytes := calls.foldl Call.next (kVolumes.headD [])

structure Place where
  volume : Bytes
  names : List Bytes
  isVolume : volume ∈ kVolumes
  entryNames : ∀ name ∈ names, EntryName name

namespace Place

def path (place : Place) : Bytes := place.volume ++ joined slash place.names

def root (volume : Bytes) (hvolume : volume ∈ kVolumes) : Place := ⟨volume, [], hvolume, by simp⟩

end Place

def toMove (part : Bytes) : Option (Move Bytes) :=
  if part = [] ∨ part = [dot] then none
  else if part = [dot, dot] then some .up
  else some (.into part)

def movesOf (text : Bytes) : List (Move Bytes) := (text.splitOn slash).filterMap toMove

def Follows (rest : Bytes) : Prop := rest = [] ∨ rest.head? = some slash

/-- Where a typed name is read from, and what is left to walk. -/
inductive Starts (place : Place) : Bytes → Place → Bytes → Prop
  | relative {typed : Bytes} (hrelative : typed.head? ≠ some slash) : Starts place typed place typed
  | absolute {volume rest : Bytes} (hvolume : volume ∈ kVolumes) (hrest : Follows rest) :
      Starts place (volume ++ rest) (.root volume hvolume) rest

def Place.Resolves (place : Place) (typed : Bytes) (target : Place) : Prop :=
  ∃ start rest, Starts place typed start rest ∧ target.volume = start.volume ∧
    walk start.names (movesOf rest) = some target.names

inductive Refused (place : Place) (typed : Bytes) : Prop
  | control {byte : UInt8} (hmem : byte ∈ typed) (hcontrol : byte < 0x20)
  | foreign (habs : typed.head? = some slash)
      (hforeign : ∀ volume ∈ kVolumes, ∀ rest, Follows rest → typed ≠ volume ++ rest)
  | outside {start : Place} {rest : Bytes} (hstart : Starts place typed start rest)
      (hhigh : TooHigh start.names.length (movesOf rest))

variable {base volume rest text typed : Bytes} {names parts pieces : List Bytes}

theorem toMove_into {part name : Bytes} (hslash : slash ∉ part)
    (hmove : toMove part = some (.into name)) : EntryName name := by
  unfold toMove at hmove
  split_ifs at hmove with hempty hdots
  · cases hmove
  · obtain rfl := Move.into.inj (Option.some.inj hmove)
    obtain ⟨hnil, hdot⟩ := not_or.mp hempty
    exact ⟨hnil, hdot, hdots, hslash⟩

theorem entryName_of_mem_movesOf {name : Bytes} (hmem : .into name ∈ movesOf text) : EntryName name := by
  obtain ⟨part, hpart, hmove⟩ := mem_filterMap.mp hmem
  exact toMove_into (notMem_of_mem_splitOn hpart) hmove

theorem foldlM_pushPart : pieces.foldlM pushPart parts = walk parts (pieces.filterMap toMove) := by
  induction pieces generalizing parts with
  | nil => rfl
  | cons piece pieces ih =>
    rw [foldlM_cons, filterMap_cons]
    unfold pushPart toMove
    split_ifs with hempty hdots hparts
    · exact ih
    · subst hparts
      rfl
    · rw [walk_up hparts]
      exact ih
    · exact ih

theorem getLast?_volume (hvolume : volume ∈ kVolumes) : volume.getLast? ≠ some slash := by
  have hall : ∀ volume ∈ kVolumes, volume.getLast? ≠ some slash := by decide
  exact hall volume hvolume

theorem getLast?_path (place : Place) : place.path.getLast? ≠ some slash := by
  have hvolume := getLast?_volume place.isVolume
  rw [Place.path]
  rcases eq_nil_or_concat place.names with hnil | ⟨names, name, hnames⟩
  · rwa [hnil, joined_nil, append_nil]
  · have hname := place.entryNames name (by simp [hnames])
    rw [hnames, concat_eq_append, joined_append, joined_cons, joined_nil, append_nil,
      ← append_assoc, append_cons, getLast?_append_of_ne_nil _ hname.ne_nil]
    exact fun hlast ↦ hname.slash_notMem (mem_of_getLast? hlast)

theorem trimmedSlashes_eq_self (hlast : text.getLast? ≠ some slash) : trimmedSlashes text = text := by
  rw [trimmedSlashes, if_neg fun htrim ↦ hlast htrim.2]

theorem foldl_appendPart (hnames : ∀ name ∈ names, EntryName name)
    (hbase : base.getLast? ≠ some slash) : names.foldl appendPart base = base ++ joined slash names := by
  induction names generalizing base with
  | nil => simp
  | cons name names ih =>
    obtain ⟨hname, hnames⟩ := forall_mem_cons.mp hnames
    have happend : appendPart base name = base ++ slash :: name := by
      rw [appendPart, if_pos hbase, append_assoc, singleton_append]
    have hlast : (base ++ slash :: name).getLast? ≠ some slash := by
      rw [append_cons, getLast?_append_of_ne_nil _ hname.ne_nil]
      exact fun hlast ↦ hname.slash_notMem (mem_of_getLast? hlast)
    rw [foldl_cons, happend, ih hnames hlast]
    simp

theorem foldParts_eq (start : Place) : foldParts start.volume start.names rest =
      match walk start.names (movesOf rest) with
      | none => .error (ascii "a path cannot leave its volume")
      | some names => .ok (start.volume ++ joined slash names) := by
  rw [foldParts, foldlM_pushPart]
  change (match walk start.names (movesOf rest) with | none => _ | some parts => _) = _
  cases hwalk : walk start.names (movesOf rest) with
  | none => rfl
  | some names =>
    have hnames := forall_mem_walk start.entryNames (fun _ ↦ entryName_of_mem_movesOf) hwalk
    have hpath : (start.volume ++ joined slash names).getLast? ≠ some slash :=
      getLast?_path ⟨start.volume, names, start.isVolume, hnames⟩
    change Except.ok (trimmedSlashes _) = _
    rw [foldl_appendPart hnames (getLast?_volume start.isVolume), trimmedSlashes_eq_self hpath]

theorem beginsWith_iff : beginsWith volume text ↔ ∃ rest, text = volume ++ rest ∧ Follows rest := by
  simp only [beginsWith, Bool.and_eq_true, beq_iff_eq, Bool.or_eq_true]
  constructor
  · rintro ⟨htake, hend⟩
    have htext : text = volume ++ text.drop volume.length := by
      conv_lhs => rw [← take_append_drop volume.length text, htake]
    refine ⟨text.drop volume.length, htext, ?_⟩
    rcases hend with hlength | hslash
    · exact .inl (drop_eq_nil_of_le hlength.le)
    · exact .inr (by rw [head?_drop, hslash])
  · rintro ⟨rest, rfl, hrest⟩
    refine ⟨take_left, ?_⟩
    rcases hrest with rfl | hhead
    · simp
    · right
      rw [← head?_drop, drop_left, hhead]

theorem volumeOf_append (hvolume : volume ∈ kVolumes) (hrest : Follows rest) :
    volumeOf (volume ++ rest) = volume := by
  have hown : beginsWith volume (volume ++ rest) := beginsWith_iff.mpr ⟨rest, rfl, hrest⟩
  rcases mem_pair.mp hvolume with rfl | rfl
  · have hfound : kVolumes.find? (fun volume ↦ beginsWith volume (ascii "/fat" ++ rest)) =
        some (ascii "/fat") := find?_cons_of_pos hown
    rw [volumeOf, hfound, Option.getD_some]
  · have hother : ¬beginsWith (ascii "/fat") (ascii "/sdcard" ++ rest) = true := by
      have htake : (ascii "/sdcard" ++ rest).take (ascii "/fat").length ≠ ascii "/fat" := by
        rw [take_append_of_le_length (by decide)]
        decide
      simp [beginsWith, htake]
    have hfound : kVolumes.find? (fun volume ↦ beginsWith volume (ascii "/sdcard" ++ rest)) =
        some (ascii "/sdcard") := by
      rw [kVolumes, find?_cons_of_neg (by exact hother), find?_cons_of_pos (by exact hown)]
    rw [volumeOf, hfound, Option.getD_some]

theorem startsWithVolume_iff :
    startsWithVolume typed ↔ ∃ volume ∈ kVolumes, ∃ rest, Follows rest ∧ typed = volume ++ rest := by
  rw [startsWithVolume, any_eq_true]
  exact exists_congr fun volume ↦ and_congr_right fun _ ↦ by
    rw [beginsWith_iff]
    exact exists_congr fun rest ↦ and_comm

theorem follows_joined (names : List Bytes) : Follows (joined slash names) := by
  rcases joined_eq_nil_or_cons slash names with hnil | ⟨behind, hcons⟩
  · exact .inl hnil
  · exact .inr (by rw [hcons]; rfl)

theorem ownVolume_path (place : Place) : ownVolume place.path = place.volume := by
  have hvolume : volumeOf place.path = place.volume :=
    volumeOf_append place.isVolume (follows_joined place.names)
  have hne : place.volume ≠ [] := by
    have hall : ∀ volume ∈ kVolumes, volume ≠ [] := by decide
    exact hall place.volume place.isVolume
  rw [ownVolume, hvolume, if_neg hne]

theorem namesIn_joined (hnames : ∀ name ∈ names, EntryName name) :
    namesIn (joined slash names) = names := by
  rw [namesIn, splitOn_joined fun name hmem ↦ (hnames name hmem).slash_notMem, filter_cons_of_neg (by simp)]
  exact filter_eq_self.mpr fun name hmem ↦ decide_eq_true (hnames name hmem).ne_nil

theorem movesOf_nil : movesOf [] = [] := by decide

theorem Starts.head_of_absolute (hvolume : volume ∈ kVolumes) : (volume ++ rest).head? = some slash := by
  rcases mem_pair.mp hvolume with rfl | rfl <;> rfl

theorem Starts.unique {place start other : Place} {tail : Bytes}
    (hstart : Starts place typed start rest) (hother : Starts place typed other tail) :
    start = other ∧ rest = tail := by
  cases hstart with
  | relative hrelative =>
    cases hother with
    | relative => exact ⟨rfl, rfl⟩
    | absolute hvolume => exact absurd (Starts.head_of_absolute hvolume) hrelative
  | @absolute volume rest hvolume hrest =>
    generalize htyped : volume ++ rest = typed at hother
    cases hother with
    | relative hrelative => exact absurd (htyped ▸ Starts.head_of_absolute hvolume) hrelative
    | @absolute same tail hsame htail =>
      have hequal : volume = same := by
        calc
          volume = volumeOf (volume ++ rest) := (volumeOf_append hvolume hrest).symm
          _ = volumeOf (same ++ tail) := by rw [htyped]
          _ = same := volumeOf_append hsame htail
      subst hequal
      exact ⟨rfl, append_cancel_left htyped⟩

theorem Place.Resolves.unique {place target other : Place} (hother : place.Resolves typed other)
    (htarget : place.Resolves typed target) : other = target := by
  obtain ⟨start, rest, hstart, hvolume, hwalk⟩ := htarget
  obtain ⟨start', rest', hstart', hvolume', hwalk'⟩ := hother
  obtain ⟨rfl, rfl⟩ := hstart.unique hstart'
  have hnames : other.names = target.names := Option.some.inj (hwalk'.symm.trans hwalk)
  cases other
  cases target
  simp_all

theorem Starts.resolve_eq {place start : Place} (hstarts : Starts place typed start rest)
    (hcontrol : ∀ byte ∈ typed, ¬byte < 0x20) :
    resolve place.path typed =
      match walk start.names (movesOf rest) with
      | none => .error (ascii "a path cannot leave its volume")
      | some names => .ok (start.volume ++ joined slash names) := by
  have hplain : hasControlByte typed = false := by simpa [hasControlByte] using hcontrol
  cases hstarts with
  | relative hrelative =>
    by_cases hempty : rest = []
    · subst hempty
      rw [resolve, if_pos rfl, movesOf_nil, walk_nil]
      rfl
    · have hdrop : place.path.drop (ownVolume place.path).length = joined slash place.names := by
        rw [ownVolume_path, Place.path, drop_left]
      rw [resolve, if_neg hempty, hplain, if_neg (by simp), if_neg hrelative, hdrop,
        namesIn_joined place.entryNames, ownVolume_path, foldParts_eq]
  | @absolute volume rest hvolume hrest =>
    have hhead : (volume ++ rest).head? = some slash := Starts.head_of_absolute hvolume
    have hempty : volume ++ rest ≠ [] := fun hnil ↦ by simp [hnil] at hhead
    have hknown : startsWithVolume (volume ++ rest) :=
      startsWithVolume_iff.mpr ⟨volume, hvolume, rest, hrest, rfl⟩
    rw [resolve, if_neg hempty, hplain, if_neg (by simp), if_pos hhead, if_pos hknown,
      volumeOf_append hvolume hrest, drop_left]
    exact foldParts_eq (.root volume hvolume)

theorem exists_starts (place : Place)
    (hforeign : ¬(typed.head? = some slash ∧
      ∀ volume ∈ kVolumes, ∀ rest, Follows rest → typed ≠ volume ++ rest)) :
    ∃ start rest, Starts place typed start rest := by
  by_cases habs : typed.head? = some slash
  · push Not at hforeign
    obtain ⟨volume, hvolume, rest, hrest, rfl⟩ := hforeign habs
    exact ⟨_, rest, .absolute hvolume hrest⟩
  · exact ⟨place, typed, .relative habs⟩

variable {place : Place}

theorem Refused.resolve_error (hrefused : Refused place typed) :
    ∃ why, resolve place.path typed = .error why := by
  by_cases hcontrol : ∃ byte ∈ typed, byte < 0x20
  · obtain ⟨byte, hmem, hbyte⟩ := hcontrol
    have hempty : typed ≠ [] := ne_nil_of_mem hmem
    have hplain : hasControlByte typed := any_eq_true.mpr ⟨byte, hmem, decide_eq_true hbyte⟩
    exact ⟨_, by rw [resolve, if_neg hempty, if_pos hplain]⟩
  · have hplain : ∀ byte ∈ typed, ¬byte < 0x20 := fun byte hmem hbyte ↦ hcontrol ⟨byte, hmem, hbyte⟩
    cases hrefused with
    | control hmem hbyte => exact absurd hbyte (hplain _ hmem)
    | foreign habs hforeign =>
      have hempty : typed ≠ [] := fun hnil ↦ by simp [hnil] at habs
      have hnone : hasControlByte typed = false := by simpa [hasControlByte] using hplain
      have hunknown : ¬startsWithVolume typed := by
        intro hknown
        obtain ⟨volume, hvolume, rest, hrest, htyped⟩ := startsWithVolume_iff.mp hknown
        exact hforeign volume hvolume rest hrest htyped
      exact ⟨_, by rw [resolve, if_neg hempty, hnone, if_neg (by simp), if_pos habs, if_neg hunknown]⟩
    | outside hstart hhigh =>
      rw [hstart.resolve_eq hplain, walk_eq_none_iff.mpr hhigh]
      exact ⟨_, rfl⟩

theorem exists_resolves (hallowed : ¬Refused place typed) :
    ∃ target : Place, place.Resolves typed target ∧ resolve place.path typed = .ok target.path := by
  have hplain : ∀ byte ∈ typed, ¬byte < 0x20 := fun byte hmem hbyte ↦ hallowed (.control hmem hbyte)
  obtain ⟨start, rest, hstart⟩ :=
    exists_starts place fun hforeign ↦ hallowed (.foreign hforeign.1 hforeign.2)
  cases hwalk : walk start.names (movesOf rest) with
  | none => exact absurd (.outside hstart (walk_eq_none_iff.mp hwalk)) hallowed
  | some names =>
    have hnames := forall_mem_walk start.entryNames (fun _ ↦ entryName_of_mem_movesOf) hwalk
    refine ⟨⟨start.volume, names, start.isVolume, hnames⟩, ⟨start, rest, hstart, rfl, hwalk⟩, ?_⟩
    rw [hstart.resolve_eq hplain, hwalk]
    rfl

theorem resolve_eq_ok_iff {path : Bytes} : resolve place.path typed = .ok path ↔
      ¬Refused place typed ∧ ∃ target : Place, place.Resolves typed target ∧ path = target.path := by
  constructor
  · intro hresolve
    have hallowed : ¬Refused place typed := by
      intro hrefused
      obtain ⟨why, herror⟩ := hrefused.resolve_error
      rw [hresolve] at herror
      cases herror
    obtain ⟨target, htarget, hpath⟩ := exists_resolves hallowed
    rw [hresolve] at hpath
    exact ⟨hallowed, target, htarget, Except.ok.inj hpath⟩
  · rintro ⟨hallowed, target, ⟨start, rest, hstart, hvolume, hwalk⟩, rfl⟩
    have hplain : ∀ byte ∈ typed, ¬byte < 0x20 := fun byte hmem hbyte ↦ hallowed (.control hmem hbyte)
    rw [hstart.resolve_eq hplain, hwalk, Place.path, hvolume]

theorem resolve_error_iff : (∃ why, resolve place.path typed = .error why) ↔ Refused place typed := by
  constructor
  · rintro ⟨why, herror⟩
    by_contra hallowed
    obtain ⟨target, -, hpath⟩ := exists_resolves hallowed
    rw [herror] at hpath
    cases hpath
  · exact Refused.resolve_error

theorem next_path (place : Place) (call : Call) : ∃ after : Place, call.next place.path = after.path := by
  cases call with
  | resolve typed => exact ⟨place, rfl⟩
  | changeTo typed =>
    rw [Call.next, changeTo]
    by_cases hempty : typed = []
    · rw [if_pos hempty, ownVolume_path]
      exact ⟨.root place.volume place.isVolume, by simp [Place.path, Place.root]⟩
    · rw [if_neg hempty]
      cases hresolve : resolve place.path typed with
      | error why => exact ⟨place, rfl⟩
      | ok path =>
        obtain ⟨-, target, -, hpath⟩ := resolve_eq_ok_iff.mp hresolve
        exact ⟨target, hpath⟩

theorem exists_place (calls : List Call) : ∃ place : Place, currentAfter calls = place.path := by
  apply foldlRecOn (motive := fun current ↦ ∃ place : Place, current = place.path)
  · exact ⟨.root (ascii "/fat") (by decide), by decide⟩
  · rintro current ⟨place, rfl⟩ call -
    exact next_path place call

/-- The current directory is a place after every sequence of calls, and a name is resolved from it
to the place that the name means, or refused. -/
theorem sandboxed (calls : List Call) (typed : Bytes) : ∃ place : Place, currentAfter calls = place.path ∧
      (currentAfter calls).getLast? ≠ some slash ∧
      ((∃ why, resolve (currentAfter calls) typed = .error why) ↔ Refused place typed) ∧
      ∀ path, resolve (currentAfter calls) typed = .ok path →
        ∃ target : Place, path = target.path ∧ path.getLast? ≠ some slash ∧ place.Resolves typed target ∧
          ∀ other : Place, place.Resolves typed other → other = target := by
  obtain ⟨place, hplace⟩ := exists_place calls
  refine ⟨place, hplace, hplace ▸ getLast?_path place, ?_, ?_⟩
  · rw [hplace]
    exact resolve_error_iff
  · intro path hresolve
    rw [hplace] at hresolve
    obtain ⟨-, target, htarget, hpath⟩ := resolve_eq_ok_iff.mp hresolve
    refine ⟨target, hpath, hpath ▸ getLast?_path target, htarget, ?_⟩
    intro other hother
    exact hother.unique htarget

end DhcpServer.Net.FileShellPath
