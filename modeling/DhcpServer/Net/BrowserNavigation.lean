import DhcpServer.Net.BrowserFrame

/-!
# Where the cursor of the file browser goes

`reload` keeps the cursor on a name, but it takes the entry at the index of the cursor and puts the cursor
at the index of the entry, although below the root of a volume a row for the parent comes first. So it
keeps the cursor beside the entry that followed. `goUp` goes to the root of the volume. Both are right
exactly where this makes no difference.
-/

namespace DhcpServer.Net.FileBrowser

open Library Storage.PathUtil FileShellPath List Option
open CopyCommands (FileEntry)

/-! ## What is asked of a key -/

def names (entries : List FileEntry) : List Bytes := entries.map (·.name)

def OnParent (panel : Panel) : Prop := panel.parent ≠ [] ∧ panel.cursor = 0

/-- What `selected` finds in the active panel. -/
def underCursor (panel : Panel) : Option FileEntry :=
  if panel.parent ≠ [] then if panel.cursor = 0 then none else panel.entries[panel.cursor - 1]?
  else panel.entries[panel.cursor]?

/-- The cursor stays on the parent row, or on the name of its entry while that is listed. -/
structure Keeps (before after : Panel) : Prop where
  parent : OnParent before → OnParent after
  entry : ∀ entry, underCursor before = some entry → entry.name ∈ names after.entries →
    ∃ same, underCursor after = some same ∧ same.name = entry.name

/-- The panel goes to the parent directory, and its cursor to an entry for the directory just left if
there is one. -/
structure Climbs (before after : Panel) : Prop where
  dir : ∀ parent name, before.dir = parent ++ slash :: name → slash ∉ name → parent ≠ [] →
    after.dir = parent
  entry : (∃ entry ∈ after.entries, resolveIn after entry.name = .ok before.dir) →
    ∃ entry, underCursor after = some entry ∧ resolveIn after entry.name = .ok before.dir

/-- The frame has a row with the mark of the cursor and the name of the entry. -/
def ShowsEntry (browser : FileBrowser) (entry : FileEntry) (lines : List Bytes) : Prop :=
  ∃ row < browser.rows - 3, ∃ line, lines[row + 1]? = some line ∧ browser.paneOf browser.active line =
      fit (ascii "> " ++ if entry.isDir then entry.name ++ ascii "/" else entry.name) browser.paneWidth

def source : Request → Option Bytes
  | .removeFile path | .removeTree path => some path
  | .rename path _ | .copy path _ => some path
  | .touch _ | .makeDir _ => none

def requested (browser : FileBrowser) (key : TuiKey) : Option Request :=
  if browser.finished then none
  else
    match browser.mode, key.kind with
    | .browse, .f8 => browser.deleteRequest.toOption
    | .prompt, .enter => browser.promptRequest.toOption.join
    | _, _ => none

/-- Whether a key ends in a reload of the active panel where it stands. -/
def rereads (browser : FileBrowser) (answers : Answers) (key : TuiKey) : Bool :=
  !browser.finished &&
    match browser.mode, key.kind with
    | .browse, .f8 =>
      match browser.deleteRequest with
      | .error _ => false
      | .ok request => answers.perform request = .ok
    | .prompt, .enter =>
      match browser.promptRequest with
      | .error _ => false
      | .ok request => request.elim .ok answers.perform = .ok
    | _, _ => false

/-- Backspace, or Enter on the parent row, below the root of the volume. -/
def GoesUp (browser : FileBrowser) (key : TuiKey) : Prop :=
  browser.finished = false ∧ browser.mode = .browse ∧
    (key.kind = .backspace ∨ key.kind = .enter ∧ OnParent browser.activePanel) ∧
    browser.activePanel.dir ≠ volumeRoot browser.activePanel.volume

structure Navigates (browser : FileBrowser) (answers : Answers) (key : TuiKey) : Prop where
  keeps : browser.rereads answers key = true →
    Keeps browser.activePanel (browser.feed answers key).activePanel
  shown : ∀ path, (browser.requested key).bind source = some path →
    ∃ entry, browser.selected = some entry ∧ resolveIn browser.activePanel entry.name = .ok path ∧
      ∀ lines after, browser.render = some (lines, after) → browser.ShowsEntry entry lines
  climbs : browser.GoesUp key → Climbs browser.activePanel (browser.feed answers key).activePanel

inductive StaysBeside (panel : Panel) (listed : List Bytes) : Prop
  | root (hroot : panel.parent = [])
  | onParent (hparent : OnParent panel)
      (hfirst : ∀ first ∈ panel.entries.head?,
        first.name = dotDot ∨ first.name ∉ listed ∨ listed.head? = some first.name)
  | gone {entry : FileEntry} (hentry : underCursor panel = some entry) (hgone : entry.name ∉ listed)
  | followed {entry next : FileEntry} {before behind : List Bytes}
      (hentry : underCursor panel = some entry) (hnext : panel.entries[panel.cursor]? = some next)
      (hdots : next.name ≠ dotDot) (hlisted : listed = before ++ entry.name :: next.name :: behind)
      (hfirst : next.name ∉ before ++ [entry.name])

def OneBelowRoot (panel : Panel) : Prop :=
  ∀ parent name, panel.dir = parent ++ slash :: name → slash ∉ name → parent ≠ [] →
    parent = volumeRoot panel.volume

structure Steady (browser : FileBrowser) (answers : Answers) (key : TuiKey) : Prop where
  beside : browser.rereads answers key = true →
    StaysBeside browser.activePanel (names (entriesOf answers browser.activePanel.dir))
  below : browser.GoesUp key → OneBelowRoot browser.activePanel

def AtEveryKey (good : FileBrowser → Answers → TuiKey → Prop) (first : FileBrowser)
    (events : List Event) : Prop :=
  ∀ before answers key after browser, events = before ++ .key answers key :: after →
    Run (fun browser event after ↦ browser.next event = some after) first before browser →
    good browser answers key

variable {answers : Answers} {panel other : Panel} {browser : FileBrowser} {dir keep parent path : Bytes}
  {entries : List FileEntry} {before behind : List Bytes} {key : TuiKey}

instance : Std.Total fun a b : FileEntry ↦ lessByName b a = false where
  total a b := by
    simp only [lessByName, decide_eq_false_iff_not, List.not_lt]
    exact List.le_total a.name b.name

instance : IsTrans FileEntry fun a b ↦ lessByName b a = false where
  trans a b c hab hbc := by
    simp only [lessByName, decide_eq_false_iff_not, List.not_lt] at hab hbc ⊢
    exact List.le_trans hab hbc

theorem pairwise_entriesOf (answers : Answers) (dir : Bytes) :
    (entriesOf answers dir).Pairwise fun a b ↦ lessByName b a = false := by
  unfold entriesOf
  split_ifs
  · exact pairwise_insertionSort _ _
  · exact .nil

theorem head_of_nil_mem (hmem : [] ∈ names (entriesOf answers dir)) :
    (names (entriesOf answers dir)).head? = some [] := by
  have hsorted := pairwise_entriesOf answers dir
  cases hentries : entriesOf answers dir with
  | nil =>
    rw [hentries] at hmem
    cases hmem
  | cons first rest =>
    rw [hentries] at hmem hsorted
    rcases mem_cons.mp hmem with hfirst | hrest
    · exact congrArg some hfirst.symm
    · obtain ⟨entry, hentry, hname⟩ := List.mem_map.mp hrest
      have hless := rel_of_pairwise_cons hsorted hentry
      cases hnil : first.name with
      | nil => exact congrArg some hnil
      | cons byte bytes => simp [lessByName, hname, hnil] at hless

theorem wantedIndex_of_notMem (hkeep : keep ∉ names entries) : wantedIndex keep parent entries = 0 := by
  have hnone : entries.findIdx? (fun entry ↦ entry.name = keep) = none := by
    refine findIdx?_eq_none_iff.mpr fun entry hentry ↦ ?_
    exact decide_eq_false fun hname ↦ hkeep (hname ▸ mem_map_of_mem hentry)
  unfold wantedIndex
  rw [hnone]
  simp

theorem wantedIndex_eq (hkeep : keep ≠ []) (hdots : ¬(keep = dotDot ∧ parent ≠ []))
    (hnames : names entries = before ++ keep :: behind) (hnew : keep ∉ before) :
    wantedIndex keep parent entries = before.length := by
  have hfound : entries.findIdx? (fun entry ↦ entry.name = keep) = some before.length := by
    have hmap : (names entries).findIdx? (· = keep) = entries.findIdx? (fun entry ↦ entry.name = keep) :=
      findIdx?_map
    have hnone : before.findIdx? (· = keep) = none := by
      refine findIdx?_eq_none_iff.mpr fun name hname ↦ ?_
      exact decide_eq_false fun hequal ↦ hnew (hequal ▸ hname)
    rw [← hmap, hnames, findIdx?_append, hnone, findIdx?_cons]
    simp
  rw [wantedIndex, if_neg hkeep, if_neg hdots, hfound]
  rfl

theorem found_of_wantedIndex_ne_zero (hwanted : wantedIndex keep parent entries ≠ 0) :
    keep ≠ [] ∧ ¬(keep = dotDot ∧ parent ≠ []) ∧
      ∃ before behind, names entries = before ++ keep :: behind ∧ keep ∉ before := by
  have hkeep : keep ≠ [] := fun hnil ↦ hwanted (by rw [wantedIndex, if_pos hnil])
  have hdots : ¬(keep = dotDot ∧ parent ≠ []) :=
    fun hdots ↦ hwanted (by rw [wantedIndex, if_neg hkeep, if_pos hdots])
  have hmem : keep ∈ names entries := by
    by_contra hgone
    exact hwanted (wantedIndex_of_notMem hgone)
  exact ⟨hkeep, hdots, eq_append_cons_of_mem hmem⟩

theorem getElem?_wantedIndex (parent : Bytes) (hmem : keep ∈ names (entriesOf answers dir))
    (hdots : ¬(keep = dotDot ∧ parent ≠ [])) :
    (names (entriesOf answers dir))[wantedIndex keep parent (entriesOf answers dir)]? = some keep := by
  by_cases hkeep : keep = []
  · subst hkeep
    rw [wantedIndex, if_pos rfl, ← head?_eq_getElem?]
    exact head_of_nil_mem hmem
  · obtain ⟨before, behind, hnames, hnew⟩ := eq_append_cons_of_mem hmem
    rw [wantedIndex_eq hkeep hdots hnames hnew, hnames]
    simp

theorem getElem?_names {index : Nat} :
    (names entries)[index]? = (entries[index]?).map (·.name) := getElem?_map

theorem keeps_reload_root (hsettled : Settled panel) (hroot : panel.parent = []) :
    Keeps panel (reload answers panel) where
  parent := fun hparent ↦ absurd hroot hparent.1
  entry := by
    intro entry hentry hmem
    have hroot' : parentOf (volumeRoot panel.volume) panel.dir = [] := hsettled.parent.symm.trans hroot
    rw [underCursor, if_neg (not_not.mpr hroot)] at hentry
    rw [reload_entries] at hmem
    have hkept : keptName panel = entry.name := by rw [keptName, hentry]
    have hfound := getElem?_wantedIndex [] hmem fun hboth ↦ hboth.2 rfl
    rw [getElem?_names] at hfound
    obtain ⟨same, hsame, hname⟩ := map_eq_some_iff.mp hfound
    have hbound := (List.getElem?_eq_some_iff.mp hsame).1
    have hcount : (reload answers panel).rowCount = (entriesOf answers panel.dir).length := by
      rw [Panel.rowCount, Panel.parentRows, reload_entries, reload_parent, if_pos hroot', Nat.add_zero]
    refine ⟨same, ?_, hname⟩
    rw [underCursor, reload_parent, if_neg (not_not.mpr hroot'), reload_entries,
      reload_cursor (by omega), hroot', hkept, hcount, Nat.min_eq_left (by omega), hsame]

theorem wantedIndex_le : wantedIndex keep parent entries ≤ entries.length := by
  by_cases hzero : wantedIndex keep parent entries = 0
  · omega
  · obtain ⟨hkeep, hdots, before, behind, hnames, hnew⟩ := found_of_wantedIndex_ne_zero hzero
    have hlength : (names entries).length = entries.length := length_map _
    rw [wantedIndex_eq hkeep hdots hnames hnew, ← hlength, hnames, length_append]
    omega

section Below

variable (hparent : parentOf (volumeRoot panel.volume) panel.dir ≠ [])

include hparent

theorem reload_cursor_below : (reload answers panel).cursor = wantedIndex (keptName panel)
      (parentOf (volumeRoot panel.volume) panel.dir) (entriesOf answers panel.dir) := by
  have hcount : (reload answers panel).rowCount = (entriesOf answers panel.dir).length + 1 := by
    rw [Panel.rowCount, Panel.parentRows, reload_entries, reload_parent, if_neg hparent]
  have hwanted : wantedIndex (keptName panel) (parentOf (volumeRoot panel.volume) panel.dir)
      (entriesOf answers panel.dir) ≤ (entriesOf answers panel.dir).length := wantedIndex_le
  rw [reload_cursor (by omega), hcount]
  omega

theorem underCursor_reload_below : underCursor (reload answers panel) =
      if (reload answers panel).cursor = 0 then none
      else (entriesOf answers panel.dir)[(reload answers panel).cursor - 1]? := by
  rw [underCursor, reload_parent, if_pos hparent, reload_entries]

theorem keeps_reload_onParent (honParent : OnParent panel) :
    Keeps panel (reload answers panel) ↔ ∀ first ∈ panel.entries.head?,
      first.name = dotDot ∨ first.name ∉ names (entriesOf answers panel.dir) ∨
        (names (entriesOf answers panel.dir)).head? = some first.name := by
  have hnone : underCursor panel = none := by
    rw [underCursor, if_pos honParent.1, if_pos honParent.2]
  have hkeeps : Keeps panel (reload answers panel) ↔ (reload answers panel).cursor = 0 := by
    refine ⟨fun hkeeps ↦ (hkeeps.parent honParent).2, fun hcursor ↦ ⟨fun _ ↦ ⟨?_, hcursor⟩, ?_⟩⟩
    · rwa [reload_parent]
    · intro entry hentry
      rw [hnone] at hentry
      cases hentry
  rw [hkeeps, reload_cursor_below hparent]
  cases hentries : panel.entries with
  | nil =>
    have hkept : keptName panel = dotDot := by
      rw [keptName, hentries, honParent.2]
      exact if_pos ⟨rfl, honParent.1⟩
    have hzero : wantedIndex dotDot (parentOf (volumeRoot panel.volume) panel.dir)
        (entriesOf answers panel.dir) = 0 := by
      rw [wantedIndex, if_neg (by decide), if_pos ⟨rfl, hparent⟩]
    rw [hkept]
    simp [hzero]
  | cons first rest =>
    have hkept : keptName panel = first.name := by
      rw [keptName, hentries, honParent.2]
      rfl
    rw [hkept]
    simp only [head?_cons, mem_def, Option.some.injEq, forall_eq']
    constructor
    · intro hzero
      by_cases hdots : first.name = dotDot
      · exact .inl hdots
      · by_cases hmem : first.name ∈ names (entriesOf answers panel.dir)
        · have hfound := getElem?_wantedIndex (parentOf (volumeRoot panel.volume) panel.dir) hmem
            fun hboth ↦ hdots hboth.1
          rw [hzero, ← head?_eq_getElem?] at hfound
          exact .inr (.inr hfound)
        · exact .inr (.inl hmem)
    · intro hfirst
      by_contra hzero
      obtain ⟨hkeep, hdots, before, behind, hnames, hnew⟩ := found_of_wantedIndex_ne_zero hzero
      rw [wantedIndex_eq hkeep hdots hnames hnew] at hzero
      rcases hfirst with hdot | hgone | hhead
      · exact hdots ⟨hdot, hparent⟩
      · exact hgone (by rw [hnames]; simp)
      · cases before with
        | nil => exact hzero rfl
        | cons name before =>
          rw [hnames] at hhead
          exact hnew (by simp [← Option.some.inj hhead])

theorem keeps_reload_entry {entry : FileEntry} (hsettled : Settled panel)
    (hentry : underCursor panel = some entry)
    (hmem : entry.name ∈ names (entriesOf answers panel.dir)) :
    Keeps panel (reload answers panel) ↔
      ∃ next before behind, panel.entries[panel.cursor]? = some next ∧ next.name ≠ dotDot ∧
        names (entriesOf answers panel.dir) = before ++ entry.name :: next.name :: behind ∧
        next.name ∉ before ++ [entry.name] := by
  have hpanel : panel.parent ≠ [] := fun hnil ↦ hparent (hsettled.parent.symm.trans hnil)
  have hcursor : panel.cursor ≠ 0 := by
    intro hzero
    rw [underCursor, if_pos hpanel, if_pos hzero] at hentry
    cases hentry
  constructor
  · intro hkeeps
    obtain ⟨same, hsame, hname⟩ := hkeeps.entry entry hentry (by rwa [reload_entries])
    rw [underCursor_reload_below hparent] at hsame
    split_ifs at hsame with hzero
    rw [reload_cursor_below hparent] at hsame hzero
    obtain ⟨hkeep, hdots, before, behind, hnames, hnew⟩ := found_of_wantedIndex_ne_zero hzero
    cases hnext : panel.entries[panel.cursor]? with
    | none =>
      rw [keptName, hnext] at hkeep
      exact absurd (if_neg fun hboth ↦ hcursor hboth.1) hkeep
    | some next =>
      have hkept : keptName panel = next.name := by rw [keptName, hnext]
      rw [hkept] at hkeep hdots hnames hnew hsame hzero
      rw [wantedIndex_eq hkeep hdots hnames hnew] at hsame hzero
      obtain ⟨upper, last, hbefore⟩ := (eq_nil_or_concat before).resolve_left
        (fun hnil ↦ hzero (by rw [hnil]; rfl))
      have hlast : (names (entriesOf answers panel.dir))[before.length - 1]? = some last := by
        rw [hnames, hbefore]
        simp
      rw [getElem?_names, hsame] at hlast
      obtain rfl : entry.name = last := hname.symm.trans (Option.some.inj hlast)
      rw [concat_eq_append] at hbefore
      refine ⟨next, upper, behind, rfl, fun hdot ↦ hdots ⟨hdot, hparent⟩, ?_, hbefore ▸ hnew⟩
      rw [hnames, hbefore]
      simp
  · rintro ⟨next, before, behind, hnext, hdots, hnames, hnew⟩
    have hkept : keptName panel = next.name := by rw [keptName, hnext]
    have hkeep : next.name ≠ [] := by
      intro hnil
      have hhead : (names (entriesOf answers panel.dir)).head? = some [] :=
        head_of_nil_mem (by rw [hnames, hnil]; simp)
      rw [hnames] at hhead
      rw [hnil] at hnew
      cases before with
      | nil => exact hnew (by simp [Option.some.inj hhead])
      | cons name before => exact hnew (by simp [Option.some.inj hhead])
    have hsplit : names (entriesOf answers panel.dir) =
        (before ++ [entry.name]) ++ next.name :: behind := by simp [hnames]
    have hwanted : (reload answers panel).cursor = before.length + 1 := by
      rw [reload_cursor_below hparent, hkept, wantedIndex_eq hkeep (fun hboth ↦ hdots hboth.1) hsplit hnew]
      simp
    refine ⟨fun honParent ↦ absurd honParent.2 hcursor, fun other hother _ ↦ ?_⟩
    obtain rfl := Option.some.inj (hentry.symm.trans hother)
    have hfound : (names (entriesOf answers panel.dir))[before.length]? = some entry.name := by
      rw [hnames]
      simp
    rw [getElem?_names] at hfound
    obtain ⟨same, hsame, hname⟩ := map_eq_some_iff.mp hfound
    refine ⟨same, ?_, hname⟩
    rw [underCursor_reload_below hparent, hwanted, if_neg (by omega), Nat.add_sub_cancel, hsame]

end Below

theorem keeps_reload_iff (hsettled : Settled panel) : Keeps panel (reload answers panel) ↔
      StaysBeside panel (names (entriesOf answers panel.dir)) := by
  by_cases hroot : panel.parent = []
  · exact ⟨fun _ ↦ .root hroot, fun _ ↦ keeps_reload_root hsettled hroot⟩
  have hparent : parentOf (volumeRoot panel.volume) panel.dir ≠ [] := hsettled.parent ▸ hroot
  by_cases hcursor : panel.cursor = 0
  · have honParent : OnParent panel := ⟨hroot, hcursor⟩
    rw [keeps_reload_onParent hparent honParent]
    refine ⟨.onParent honParent, fun hstays ↦ ?_⟩
    have hnone : underCursor panel = none := by rw [underCursor, if_pos hroot, if_pos hcursor]
    cases hstays with
    | root hnil => exact absurd hnil hroot
    | onParent _ hfirst => exact hfirst
    | gone hentry => cases hnone.symm.trans hentry
    | followed hentry => cases hnone.symm.trans hentry
  · have hbound : panel.cursor - 1 < panel.entries.length := by
      have hinside := hsettled.cursor
      unfold CursorInside at hinside
      rw [Panel.rowCount, Panel.parentRows, if_neg hroot] at hinside
      omega
    obtain ⟨entry, hentry⟩ : ∃ entry, underCursor panel = some entry := by
      rw [underCursor, if_pos hroot, if_neg hcursor]
      exact ⟨_, getElem?_eq_getElem hbound⟩
    by_cases hmem : entry.name ∈ names (entriesOf answers panel.dir)
    · rw [keeps_reload_entry hparent hsettled hentry hmem]
      constructor
      · rintro ⟨next, before, behind, hnext, hdots, hlisted, hfirst⟩
        exact .followed hentry hnext hdots hlisted hfirst
      · intro hstays
        cases hstays with
        | root hnil => exact absurd hnil hroot
        | onParent honParent => exact absurd honParent.2 hcursor
        | gone hother hgone =>
          obtain rfl := Option.some.inj (hentry.symm.trans hother)
          exact absurd hmem hgone
        | followed hother hnext hdots hlisted hfirst =>
          obtain rfl := Option.some.inj (hentry.symm.trans hother)
          exact ⟨_, _, _, hnext, hdots, hlisted, hfirst⟩
    · refine ⟨fun _ ↦ .gone hentry hmem, fun _ ↦ ⟨fun honParent ↦ absurd honParent.2 hcursor, ?_⟩⟩
      intro other hother hlisted
      obtain rfl := Option.some.inj (hentry.symm.trans hother)
      rw [reload_entries] at hlisted
      exact absurd hlisted hmem

theorem resolveIn_congr (hdir : other.dir = panel.dir) : resolveIn other = resolveIn panel := by
  funext typed
  unfold resolveIn CopyCommands.FileBrowser.resolveIn
  rw [hdir]

variable {entry : FileEntry}

theorem leadsTo_iff : leadsTo panel path entry ↔ resolveIn panel entry.name = .ok path := by
  unfold leadsTo
  cases hresolve : resolveIn panel entry.name with
  | error why => simp
  | ok resolved =>
    obtain ⟨place, hplace⟩ := exists_place_of_resolveIn hresolve
    have hne : resolved ≠ [] := by
      have hall : ∀ volume ∈ kVolumes, volume ≠ [] := by decide
      rw [hplace, Place.path]
      exact append_ne_nil_of_left_ne_nil (hall _ place.isVolume) _
    simp [hne]

theorem underCursor_cursorOn (hentry : ∃ entry ∈ panel.entries, resolveIn panel entry.name = .ok path) :
    ∃ entry, underCursor (cursorOn path panel) = some entry ∧ resolveIn panel entry.name = .ok path := by
  obtain ⟨listed, hlisted, hresolve⟩ := hentry
  cases hfound : panel.entries.findIdx? (leadsTo panel path) with
  | none =>
    have hmiss := findIdx?_eq_none_iff.mp hfound listed hlisted
    rw [leadsTo_iff.mpr hresolve] at hmiss
    cases hmiss
  | some i =>
    obtain ⟨hbound, hleads, -⟩ := findIdx?_eq_some_iff_getElem.mp hfound
    refine ⟨panel.entries[i], ?_, leadsTo_iff.mp hleads⟩
    have hcursor : cursorOn path panel = { panel with cursor := i + panel.parentRows } := by
      rw [cursorOn, hfound]
    rw [hcursor, underCursor, Panel.parentRows]
    by_cases hroot : panel.parent = []
    · simp [hroot, hbound]
    · simp [hroot, hbound]

theorem climbs_leave_iff : Climbs panel (leave answers panel) ↔ OneBelowRoot panel := by
  have hdir : (leave answers panel).dir = volumeRoot panel.volume := by
    rw [leave, cursorOn_dir, reload_dir]
  constructor
  · intro hclimbs parent name hpath hslash hne
    rw [← hclimbs.dir parent name hpath hslash hne, hdir]
  · intro hbelow
    refine ⟨fun parent name hpath hslash hne ↦ ?_, fun hentry ↦ ?_⟩
    · rw [hdir, hbelow parent name hpath hslash hne]
    · rw [leave] at hentry ⊢
      rw [resolveIn_congr cursorOn_dir, cursorOn_entries] at hentry
      rw [resolveIn_congr cursorOn_dir]
      exact underCursor_cursorOn hentry

/-! ## Keys -/

@[simp] theorem activePanel_onActive {work : Panel → Panel} :
    (browser.onActive work).activePanel = work browser.activePanel := onPanel_self

@[simp] theorem activePanel_say {message : Bytes} :
    (browser.say message).activePanel = browser.activePanel := rfl

@[simp] theorem activePanel_closePrompt : browser.closePrompt.activePanel = browser.activePanel := rfl

theorem feed_rereads (hreads : browser.rereads answers key) :
    (browser.feed answers key).activePanel = reload answers browser.activePanel := by
  unfold rereads at hreads
  obtain ⟨hfinished, hreads⟩ := Bool.and_eq_true_iff.mp hreads
  rw [feed, if_neg (by simpa using hfinished)]
  split at hreads
  · rename_i hmode hkind
    rw [hmode, handleBrowse, hkind]
    rw [doDelete]
    cases hrequest : browser.deleteRequest with
    | error message =>
      rw [hrequest] at hreads
      cases hreads
    | ok request =>
      rw [hrequest] at hreads
      simp only [of_decide_eq_true hreads, ne_eq, not_true_eq_false, if_false]
      rw [activePanel_say, activePanel_onActive]
  · rename_i hmode hkind
    rw [hmode, handlePrompt, hkind]
    rw [applyPrompt]
    cases hrequest : browser.promptRequest with
    | error message =>
      rw [hrequest] at hreads
      cases hreads
    | ok request =>
      rw [hrequest] at hreads
      simp only [of_decide_eq_true hreads, ne_eq, not_true_eq_false, if_false]
      rw [activePanel_say, activePanel_onActive, activePanel_closePrompt]
  · cases hreads

theorem feed_goesUp (hup : browser.GoesUp key) :
    (browser.feed answers key).activePanel = leave answers browser.activePanel := by
  obtain ⟨hfinished, hmode, hkey, hdir⟩ := hup
  have hgoUp : (browser.goUp answers).activePanel = leave answers browser.activePanel := by
    unfold goUp
    rw [if_neg hdir, activePanel_say, activePanel_onActive]
  rw [feed, if_neg (by simp [hfinished]), hmode, handleBrowse]
  rcases hkey with hkind | ⟨hkind, honParent⟩
  · rw [hkind]
    exact hgoUp
  · rw [hkind]
    unfold openSelected
    rw [if_pos (show browser.activePanel.parent ≠ [] ∧ browser.activePanel.cursor = 0 from honParent)]
    exact hgoUp

theorem entryName_underCursor (hentry : underCursor panel = some entry) : entryName panel panel.cursor =
      if entry.isDir then entry.name ++ ascii "/" else entry.name := by
  unfold underCursor at hentry
  unfold entryName Panel.parentRows
  by_cases hroot : panel.parent = []
  · rw [if_neg (not_not.mpr hroot)] at hentry
    rw [if_neg fun hboth ↦ hboth.1 hroot, if_pos hroot, Nat.sub_zero, hentry]
  · rw [if_pos hroot] at hentry
    split_ifs at hentry with hcursor
    rw [if_neg fun hboth ↦ hcursor hboth.2, if_neg hroot, hentry]

theorem rowCount_of_underCursor (hentry : underCursor panel = some entry) : panel.rowCount ≠ 0 := by
  intro hrows
  have hnil : panel.entries = [] := length_eq_zero_iff.mp (Nat.eq_zero_of_add_eq_zero_right hrows)
  unfold underCursor at hentry
  rw [hnil] at hentry
  split_ifs at hentry <;> simp at hentry

variable {request : Request}

theorem source_of_deleteRequest (hrequest : browser.deleteRequest = .ok request)
    (hsource : source request = some path) :
    ∃ entry, browser.selected = some entry ∧ resolveIn browser.activePanel entry.name = .ok path := by
  unfold deleteRequest at hrequest
  split at hrequest
  · cases hrequest
  · rename_i entry hsel
    split at hrequest
    · cases hrequest
    · rename_i target hresolve
      cases hrequest
      refine ⟨entry, hsel, ?_⟩
      split_ifs at hsource <;> rwa [← Option.some.inj hsource]

theorem source_of_requestFrom {make : Bytes → Request} (hmake : ∀ path, source (make path) = some path)
    (hrequest : browser.requestFrom make = .ok (some request))
    (hsource : source request = some path) :
    ∃ entry, browser.selected = some entry ∧ resolveIn browser.activePanel entry.name = .ok path := by
  unfold requestFrom at hrequest
  split at hrequest
  · cases hrequest
  · rename_i entry hsel
    split at hrequest
    · cases hrequest
    · rename_i target hresolve
      obtain rfl := Option.some.inj (Except.ok.inj hrequest)
      rw [hmake] at hsource
      exact ⟨entry, hsel, by rwa [← Option.some.inj hsource]⟩

theorem source_of_promptRequest
    (hrequest : browser.promptRequest = .ok (some request)) (hsource : source request = some path) :
    ∃ entry, browser.selected = some entry ∧ resolveIn browser.activePanel entry.name = .ok path := by
  unfold promptRequest at hrequest
  split_ifs at hrequest
  split at hrequest
  · cases hrequest
  · split at hrequest
    · obtain rfl := Option.some.inj (Except.ok.inj hrequest)
      cases hsource
    · obtain rfl := Option.some.inj (Except.ok.inj hrequest)
      cases hsource
    · exact source_of_requestFrom (fun _ ↦ rfl) hrequest hsource
    · exact source_of_requestFrom (fun _ ↦ rfl) hrequest hsource
    · cases hrequest

theorem eq_ok_of_toOption {ε α : Type} {result : Except ε α} {value : α}
    (hresult : result.toOption = some value) : result = .ok value := by
  cases result with
  | error why => cases hresult
  | ok found => exact congrArg _ (Option.some.inj hresult)

/-- A call about an entry is made in a mode whose frames show the panels, and is about the entry under
the cursor. -/
theorem requested_source (hrequest : (browser.requested key).bind source = some path) :
    browser.mode ≠ .view ∧ ∃ entry, browser.selected = some entry ∧
      resolveIn browser.activePanel entry.name = .ok path := by
  obtain ⟨request, hrequested, hsource⟩ := bind_eq_some_iff.mp hrequest
  unfold requested at hrequested
  split_ifs at hrequested
  split at hrequested
  · rename_i hmode _
    exact ⟨by simp [hmode], source_of_deleteRequest (eq_ok_of_toOption hrequested) hsource⟩
  · rename_i hmode _
    have hprompt := eq_ok_of_toOption (join_eq_some_iff.mp hrequested)
    exact ⟨by simp [hmode], source_of_promptRequest hprompt hsource⟩
  · cases hrequested

theorem shown_of_tidy (htidy : Tidy browser) (hrequest : (browser.requested key).bind source = some path) :
    ∃ entry, browser.selected = some entry ∧ resolveIn browser.activePanel entry.name = .ok path ∧
      ∀ lines after, browser.render = some (lines, after) → browser.ShowsEntry entry lines := by
  obtain ⟨hmode, entry, hsel, hresolve⟩ := requested_source hrequest
  refine ⟨entry, hsel, hresolve, fun lines after hrender ↦ ?_⟩
  have hentry : underCursor browser.activePanel = some entry := hsel
  have hrows := rowCount_of_underCursor hentry
  have hcursor := (htidy.settled browser.active).cursor.resolve_left hrows
  have hcount : 8 ≤ browser.rows := htidy.wide.rows
  cases hheader : browser.headerRow with
  | none =>
    unfold render buildFrame at hrender
    rw [if_neg hmode, hheader] at hrender
    cases hrender
  | some header =>
    rw [render_panels (by omega) hmode hheader] at hrender
    cases hrender
    have hshows : browser.ShowsCursor ((header :: (List.range (browser.rows - 3)).map
        browser.repaired.shownRow ++ browser.repaired.bars).map textOf) :=
      showsCursor_panels htidy.wide hrows hcursor
    rw [ShowsCursor, entryName_underCursor hentry] at hshows
    exact hshows

theorem navigates_iff (htidy : Tidy browser) :
    browser.Navigates answers key ↔ browser.Steady answers key := by
  have hsettled : Settled browser.activePanel := htidy.settled browser.active
  constructor
  · intro hnavigates
    refine ⟨fun hreads ↦ ?_, fun hup ↦ ?_⟩
    · have hkeeps := hnavigates.keeps hreads
      rwa [feed_rereads hreads, keeps_reload_iff hsettled] at hkeeps
    · have hclimbs := hnavigates.climbs hup
      rwa [feed_goesUp hup, climbs_leave_iff] at hclimbs
  · intro hsteady
    refine ⟨fun hreads ↦ ?_, fun path ↦ shown_of_tidy htidy, fun hup ↦ ?_⟩
    · rw [feed_rereads hreads, keeps_reload_iff hsettled]
      exact hsteady.beside hreads
    · rw [feed_goesUp hup, climbs_leave_iff]
      exact hsteady.below hup

/-- Along every run of keys, sizes and frames, each key keeps the cursor on its name, acts on the entry
that was shown and goes up to the parent directory exactly where the listings and directories leave no
difference between rows and entries and between the parent and the root. -/
theorem navigates_along_iff (answers : Answers) (cols rows : Int) (events : List Event) :
    AtEveryKey Navigates (start answers cols rows) events ↔
      AtEveryKey Steady (start answers cols rows) events := by
  have htidy : ∀ before browser,
      Run (fun browser event after ↦ browser.next event = some after) (start answers cols rows) before
        browser → Tidy browser := by
    intro before browser hrun
    refine hrun.preserves (fun first event last htidy hnext ↦ ?_) (tidy_start answers cols rows)
    exact tidy_next htidy hnext
  constructor
  · intro hnavigates before answers key after browser hevents hrun
    exact (navigates_iff (htidy before browser hrun)).mp
      (hnavigates before answers key after browser hevents hrun)
  · intro hsteady before answers key after browser hevents hrun
    exact (navigates_iff (htidy before browser hrun)).mpr
      (hsteady before answers key after browser hevents hrun)

/-! ## Two sessions below the root -/

def listing (dirs : List (String × List FileEntry)) : Answers where
  list path :=
    match dirs.find? fun dir ↦ ascii dir.1 = path with
    | some dir => (.ok, dir.2)
    | none => (.notFound, [])
  perform _ := .ok
  readText _ _ := (.ok, [], false)
  freed := []

def file (name : String) : FileEntry := ⟨ascii name, false, 0⟩

def directory (name : String) : FileEntry := ⟨ascii name, true, 0⟩

def beforeTouch : Answers :=
  listing [("/fat", [directory "logs"]), ("/fat/logs", [file "a", file "b", file "c"])]

def afterTouch : Answers :=
  listing [("/fat", [directory "logs"]), ("/fat/logs", [file "a", file "b", file "bb", file "c"])]

/-- The cursor on `b`, and F4 with the name `bb` typed. -/
def untilTouch : List Event :=
  [.key beforeTouch ⟨.enter, 0⟩, .key beforeTouch ⟨.down, 0⟩, .key beforeTouch ⟨.down, 0⟩,
    .key beforeTouch ⟨.f4, 0⟩, .key beforeTouch ⟨.char, 0x62⟩, .key beforeTouch ⟨.char, 0x62⟩]

def nested : Answers := listing [("/fat", [directory "a"]), ("/fat/a", [directory "b"]), ("/fat/a/b", [])]

/-- The panel stands in `/fat/a/b`. -/
def intoNested : List Event := [.key nested ⟨.enter, 0⟩, .key nested ⟨.down, 0⟩, .key nested ⟨.enter, 0⟩]

/-- A file `bb` is made below `/fat/logs` and the cursor goes from `b` to it; and Backspace goes from
`/fat/a/b` to `/fat`. -/
theorem cursor_and_parent_lost :
    ¬AtEveryKey Navigates (start beforeTouch 80 24) (untilTouch ++ [.key afterTouch ⟨.enter, 0⟩]) ∧
    ¬AtEveryKey Navigates (start nested 80 24) (intoNested ++ [.key nested ⟨.backspace, 0⟩]) := by
  constructor
  · intro hnavigates
    have hany : (steps next (start beforeTouch 80 24) untilTouch).any (fun browser ↦
        browser.rereads afterTouch ⟨.enter, 0⟩ = true ∧
          (underCursor browser.activePanel).map (·.name) = some (ascii "b") ∧
          ascii "b" ∈ names (browser.feed afterTouch ⟨.enter, 0⟩).activePanel.entries ∧
          (underCursor (browser.feed afterTouch ⟨.enter, 0⟩).activePanel).map (·.name) =
            some (ascii "bb")) = true := by decide +kernel
    obtain ⟨browser, hrun, htest⟩ := exists_run_of_any hany
    obtain ⟨hreads, hbefore, hlisted, hafter⟩ := of_decide_eq_true htest
    obtain ⟨entry, hentry, hname⟩ := map_eq_some_iff.mp hbefore
    have hkeeps := (hnavigates untilTouch afterTouch ⟨.enter, 0⟩ [] browser rfl hrun).keeps hreads
    obtain ⟨same, hsame, hequal⟩ := hkeeps.entry entry hentry (hname ▸ hlisted)
    rw [hsame, map_some, hequal, hname] at hafter
    exact absurd (Option.some.inj hafter) (by decide)
  · intro hnavigates
    have hany : (steps next (start nested 80 24) intoNested).any (fun browser ↦
        browser.finished = false ∧ browser.mode = .browse ∧
          browser.activePanel.dir = ascii "/fat/a/b" ∧ volumeRoot browser.activePanel.volume = ascii "/fat" ∧
          (browser.feed nested ⟨.backspace, 0⟩).activePanel.dir = ascii "/fat") = true := by
      decide +kernel
    obtain ⟨browser, hrun, htest⟩ := exists_run_of_any hany
    obtain ⟨hfinished, hmode, hdir, hroot, hafter⟩ := of_decide_eq_true htest
    have hup : browser.GoesUp ⟨.backspace, 0⟩ := by
      refine ⟨hfinished, hmode, .inl rfl, ?_⟩
      rw [hdir, hroot]
      decide
    have hclimbs := (hnavigates intoNested nested ⟨.backspace, 0⟩ [] browser rfl hrun).climbs hup
    have hparent := hclimbs.dir (ascii "/fat/a") (ascii "b") hdir (by decide) (by decide)
    rw [hafter] at hparent
    exact absurd hparent (by decide)

/-! ## The sandbox -/

def paths : Request → List Bytes
  | .touch path | .makeDir path | .removeFile path | .removeTree path => [path]
  | .rename source target | .copy source target => [source, target]

end DhcpServer.Net.FileBrowser
