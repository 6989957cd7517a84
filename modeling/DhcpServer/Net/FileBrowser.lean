import DhcpServer.Library.Numerals
import DhcpServer.Net.CopyCommands
import Mathlib.Data.List.Sort

/-!
# The file browser

`FileBrowser` is the screen behind `mc` without its terminal: keys and sizes come in, frames of text go
out. What the volumes answer is an input of every key. The paths of both panels go through the policy of
`FileShellPath`.
-/

namespace DhcpServer.Net

open Library Storage.PathUtil FileShellPath PosixFileOperations Function
open CopyCommands (FileEntry kPromptMaxChars)

inductive TuiKeyKind
  | none | char | up | down | left | right | home | endKey | pageUp | pageDown | enter | backspace | tab
  | escape | f1 | f2 | f3 | f4 | f5 | f6 | f7 | f8 | f9 | f10 | f11 | f12 | altF1 | altF2 | ctrlC
deriving DecidableEq

structure TuiKey where
  kind : TuiKeyKind
  ch : UInt8 := 0
deriving DecidableEq

/-- A call of `IFileOperations` that changes a volume. -/
inductive Request
  | touch (path : Bytes)
  | makeDir (path : Bytes)
  | removeFile (path : Bytes)
  | removeTree (path : Bytes)
  | rename (source target : Bytes)
  | copy (source target : Bytes)

/-- What `IFileOperations` answers while one key is handled. -/
structure Answers where
  list : Bytes → FileOpStatus × List FileEntry
  perform : Request → FileOpStatus
  /-- the status, the text and whether it is binary -/
  readText : Bytes → Nat → FileOpStatus × Bytes × Bool
  /-- what the name of an entry reads as after the reload that releases it -/
  freed : Bytes

/-! ## Panels -/

namespace FileBrowser

def kDividerMinWidth : Nat := 1
def kMinCols : Nat := 40
def kMaxCols : Nat := 200
def kMinRows : Nat := 8
def kMaxRows : Nat := 60
def kViewLimitBytes : Nat := 64 * 1024

def clampCols (cols : Int) : Nat :=
  if cols < kMinCols then kMinCols else if kMaxCols < cols then kMaxCols else cols.toNat

def clampRows (rows : Int) : Nat :=
  if rows < kMinRows then kMinRows else if kMaxRows < rows then kMaxRows else rows.toNat

/-- The directory, its entries, the parent and the cursor are those that a copy looks at. -/
structure Panel extends CopyCommands.Panel where
  /-- index into `kVolumes` -/
  volume : Fin 2
  top : Nat

def volumeRoot (volume : Fin 2) : Bytes := kVolumes.getD volume []

def dotDot : Bytes := [dot, dot]

namespace Panel

def parentRows (panel : Panel) : Nat := if panel.parent = [] then 0 else 1

def rowCount (panel : Panel) : Nat := panel.entries.length + panel.parentRows

end Panel

def lessByName (a b : FileEntry) : Bool := a.name < b.name

def sortByName (listed : List FileEntry) : List FileEntry :=
  listed.insertionSort fun a b ↦ lessByName b a = false

def entriesOf (answers : Answers) (dir : Bytes) : List FileEntry :=
  if (answers.list dir).1 = .ok then sortByName (answers.list dir).2 else []

/-- `keep` of `reload`: the entry is taken at the index of the cursor. -/
def keptName (panel : Panel) : Bytes :=
  match panel.entries[panel.cursor]? with
  | some entry => entry.name
  | none => if panel.cursor = 0 ∧ panel.parent ≠ [] then dotDot else []

/-- The directory up to its last slash, if that is behind the volume. -/
def parentOf (volume dir : Bytes) : Bytes :=
  if dir = volume then []
  else
    match dir.reverse.dropWhile (· ≠ slash) with
    | [] => volume
    | _ :: before => if volume.length ≤ before.length then before.reverse else volume

/-- The index of the kept name among the new entries, 0 where it is not found. -/
def wantedIndex (keep parent : Bytes) (entries : List FileEntry) : Nat :=
  if keep = [] then 0
  else if keep = dotDot ∧ parent ≠ [] then 0
  else (entries.findIdx? fun entry ↦ entry.name = keep).getD 0

def reload (answers : Answers) (panel : Panel) : Panel :=
  let read :=
    { panel with
      parent := parentOf (volumeRoot panel.volume) panel.dir
      entries := entriesOf answers panel.dir }
  if read.rowCount = 0 then { read with cursor := 0, top := 0 }
  else
    { read with
      cursor := min (wantedIndex (keptName panel) read.parent read.entries) (read.rowCount - 1) }

def moveCursor (delta : Int) (panel : Panel) : Panel :=
  if panel.rowCount = 0 then panel
  else { panel with cursor := (max 0 (min (panel.cursor + delta) (panel.rowCount - 1))).toNat }

def resolveIn (panel : Panel) (typed : Bytes) : Except Bytes Bytes :=
  CopyCommands.FileBrowser.resolveIn panel.toPanel typed

def leadsTo (panel : Panel) (path : Bytes) (entry : FileEntry) : Bool :=
  match resolveIn panel entry.name with
  | .error _ => false
  | .ok resolved => resolved ≠ [] && resolved = path

/-- The loop of `goUp` that puts the cursor on the directory just left. -/
def cursorOn (leaving : Bytes) (panel : Panel) : Panel :=
  match panel.entries.findIdx? (leadsTo panel leaving) with
  | some i => { panel with cursor := i + panel.parentRows }
  | none => panel

/-- What `openSelected` does with a directory. -/
def enter (answers : Answers) (path : Bytes) (panel : Panel) : Panel :=
  reload answers { panel with dir := path, cursor := 0, top := 0 }

/-- What `goUp` does below the root of the volume. -/
def leave (answers : Answers) (panel : Panel) : Panel :=
  cursorOn panel.dir (reload answers { panel with dir := volumeRoot panel.volume })

def switched (answers : Answers) (panel : Panel) : Panel :=
  let volume := panel.volume + 1
  reload answers { panel with volume, dir := volumeRoot volume, cursor := 0, top := 0 }

/-- The repair that `listRow` makes on the active panel. -/
def scrolled (listRows : Nat) (panel : Panel) : Panel :=
  if panel.rowCount = 0 then panel
  else
    let top := if panel.cursor < panel.top then panel.cursor else panel.top
    { panel with
      top := if top + listRows ≤ panel.cursor ∧ 0 < listRows then panel.cursor - listRows + 1 else top }

end FileBrowser

/-! ## The screen -/

inductive Mode
  | browse
  | prompt
  | view
deriving DecidableEq

inductive PromptAction
  | none
  | newFile
  | newDirectory
  | rename
  | copy

structure FileBrowser where
  cols : Nat
  rows : Nat
  panels : Fin 2 → FileBrowser.Panel
  active : Fin 2 := 0
  mode : Mode := .browse
  promptAction : PromptAction := .none
  promptTitle : Bytes := []
  promptText : Bytes := []
  message : Bytes := []
  viewLines : List Bytes := []
  viewTop : Nat := 0
  viewName : Bytes := []
  finished : Bool := false

namespace FileBrowser

def activePanel (browser : FileBrowser) : Panel := browser.panels browser.active

def onPanel (browser : FileBrowser) (side : Fin 2) (work : Panel → Panel) : FileBrowser :=
  { browser with panels := update browser.panels side (work (browser.panels side)) }

def onActive (browser : FileBrowser) (work : Panel → Panel) : FileBrowser :=
  browser.onPanel browser.active work

def say (browser : FileBrowser) (message : Bytes) : FileBrowser := { browser with message }

def error (browser : FileBrowser) (why : Bytes) : FileBrowser := browser.say (ascii "error: " ++ why)

def forCopy (browser : FileBrowser) : CopyCommands.FileBrowser :=
  ⟨fun side ↦ (browser.panels side).toPanel, browser.active⟩

def selected (browser : FileBrowser) : Option FileEntry := browser.forCopy.selected

def start (answers : Answers) (cols rows : Int) : FileBrowser where
  cols := clampCols cols
  rows := clampRows rows
  panels _ := reload answers
    { dir := volumeRoot 0, entries := [], parent := [], cursor := 0, volume := 0, top := 0 }

def resize (cols rows : Int) (browser : FileBrowser) : FileBrowser :=
  { browser with
    cols := clampCols cols
    rows := clampRows rows
    panels := fun side ↦
      { browser.panels side with top := min (browser.panels side).top (browser.panels side).cursor } }

/-! ### Keys in the panels -/

def page (direction : Int) (browser : FileBrowser) : FileBrowser :=
  browser.onActive (moveCursor (direction * (browser.rows - 3 : Nat)))

def goUp (answers : Answers) (browser : FileBrowser) : FileBrowser :=
  let panel := browser.activePanel
  if panel.dir = volumeRoot panel.volume then browser.error (ascii "a path cannot leave its volume")
  else (browser.onActive (leave answers)).say []

def pushByte : List Bytes × Bytes → UInt8 → List Bytes × Bytes
  | (lines, line), byte =>
    if byte = 0x0A then (lines ++ [line], [])
    else if byte ≠ 0x0D then (lines, line ++ [byte])
    else (lines, line)

def viewLinesOf (text : Bytes) : List Bytes :=
  let read := text.foldl pushByte ([], [])
  if read.2 = [] then read.1 else read.1 ++ [read.2]

def startView (answers : Answers) (browser : FileBrowser) : FileBrowser :=
  match browser.selected with
  | none => browser
  | some entry =>
    match resolveIn browser.activePanel entry.name with
    | .error why => browser.error why
    | .ok path =>
      match answers.readText path kViewLimitBytes with
      | (.noSpace, _, _) =>
        browser.error
          (ascii "larger than " ++ numeral 10 kViewLimitBytes ++ ascii " bytes: " ++ entry.name)
      | (.ok, _, true) => browser.error (ascii "not a text file: " ++ entry.name)
      | (.ok, text, false) =>
        { browser with
          viewLines := viewLinesOf text
          viewName := entry.name
          viewTop := 0
          mode := .view
          message := [] }
      | _ => browser.error (ascii "cannot read " ++ entry.name)

def openSelected (answers : Answers) (browser : FileBrowser) : FileBrowser :=
  let panel := browser.activePanel
  if panel.parent ≠ [] ∧ panel.cursor = 0 then browser.goUp answers
  else
    match browser.selected with
    | none => browser
    | some entry =>
      match resolveIn panel entry.name with
      | .error why => browser.error why
      | .ok path =>
        if entry.isDir then (browser.onActive (enter answers path)).say []
        else browser.startView answers

def switchVolume (answers : Answers) (side : Fin 2) (browser : FileBrowser) : FileBrowser :=
  (browser.onPanel side (switched answers)).say []

/-- The call that `doDelete` makes, or what it says instead. -/
def deleteRequest (browser : FileBrowser) : Except Bytes Request :=
  match browser.selected with
  | none => .error (ascii "error: nothing is selected")
  | some entry =>
    match resolveIn browser.activePanel entry.name with
    | .error why => .error (ascii "error: " ++ why)
    | .ok path => .ok (if entry.isDir then .removeTree path else .removeFile path)

def doDelete (answers : Answers) (browser : FileBrowser) : FileBrowser :=
  match browser.deleteRequest with
  | .error message => browser.say message
  | .ok request =>
    if answers.perform request ≠ .ok then browser.error (ascii "delete failed")
    -- the entry is one of those that the reload releases
    else (browser.onActive (reload answers)).say (ascii "deleted " ++ answers.freed)

def openPrompt (action : PromptAction) (title text : Bytes) (browser : FileBrowser) : FileBrowser :=
  { browser with
    mode := .prompt
    promptAction := action
    promptTitle := title
    promptText := text
    message := [] }

def promptSelected (action : PromptAction) (title : Bytes) (text : FileEntry → Bytes)
    (browser : FileBrowser) : FileBrowser :=
  match browser.selected with
  | none => browser.error (ascii "nothing is selected")
  | some entry => browser.openPrompt action title (text entry)

def handleBrowse (answers : Answers) (browser : FileBrowser) (key : TuiKey) : FileBrowser :=
  match key.kind with
  | .up => browser.onActive (moveCursor (-1))
  | .down => browser.onActive (moveCursor 1)
  | .pageUp => browser.page (-1)
  | .pageDown => browser.page 1
  | .home => browser.onActive (moveCursor (-(browser.rows : Int) * 1000))
  | .endKey => browser.onActive (moveCursor ((browser.rows : Int) * 1000))
  | .enter => browser.openSelected answers
  | .backspace => browser.goUp answers
  | .tab => { browser with active := 1 - browser.active, message := [] }
  | .altF1 => browser.switchVolume answers 0
  | .altF2 => browser.switchVolume answers 1
  | .f3 => browser.startView answers
  | .f4 => browser.openPrompt .newFile (ascii "New file: ") []
  | .f5 => browser.promptSelected .copy CopyCommands.FileBrowser.promptTitle browser.forCopy.prefilled
  | .f6 => browser.promptSelected .rename (ascii "Rename to: ") (·.name)
  | .f7 => browser.openPrompt .newDirectory (ascii "New directory: ") []
  | .f8 => browser.doDelete answers
  | .f10 | .ctrlC => { browser with finished := true }
  | _ => browser

/-- The call of a prompt about the entry under the cursor; a name that is not resolved is not found. -/
def requestFrom (browser : FileBrowser) (request : Bytes → Request) : Except Bytes (Option Request) :=
  match browser.selected with
  | none => .error (ascii "error: nothing is selected")
  | some entry =>
    match resolveIn browser.activePanel entry.name with
    | .error _ => .error (ascii "error: " ++ browser.promptTitle ++ ascii " failed")
    | .ok source => .ok (some (request source))

/-- The call that `applyPrompt` makes, if any, or what it says instead. -/
def promptRequest (browser : FileBrowser) : Except Bytes (Option Request) :=
  if browser.promptText = [] then .error (ascii "error: a name is empty")
  else
    match resolveIn browser.activePanel browser.promptText with
    | .error why => .error (ascii "error: " ++ why)
    | .ok target =>
      match browser.promptAction with
      | .newFile => .ok (some (.touch target))
      | .newDirectory => .ok (some (.makeDir target))
      | .rename => browser.requestFrom fun source ↦ .rename source target
      | .copy => browser.requestFrom fun source ↦ .copy source target
      | .none => .ok none

def closePrompt (browser : FileBrowser) : FileBrowser :=
  { browser with mode := .browse, promptAction := .none, promptTitle := [], promptText := [] }

def applyPrompt (answers : Answers) (browser : FileBrowser) : FileBrowser :=
  match browser.promptRequest with
  | .error message => browser.closePrompt.say message
  | .ok request =>
    if (request.elim .ok answers.perform) ≠ .ok then
      browser.closePrompt.error (browser.promptTitle ++ ascii " failed")
    else
      (browser.closePrompt.onActive (reload answers)).say (browser.promptTitle ++ ascii " done")

def handlePrompt (answers : Answers) (browser : FileBrowser) (key : TuiKey) : FileBrowser :=
  match key.kind with
  | .enter => browser.applyPrompt answers
  | .escape => browser.closePrompt.say (ascii "cancelled")
  | .backspace => { browser with promptText := browser.promptText.dropLast }
  | .f10 | .ctrlC => { browser with finished := true }
  | .char =>
    if browser.promptText.length < kPromptMaxChars then
      { browser with promptText := browser.promptText ++ [key.ch] }
    else browser
  | _ => browser

def closeView (browser : FileBrowser) : FileBrowser := { browser with mode := .browse, viewLines := [] }

def handleView (browser : FileBrowser) (key : TuiKey) : FileBrowser :=
  let listRows := if 3 < browser.rows then browser.rows - 3 else 1
  let last := browser.viewLines.length - 1
  let maxTop := if listRows - 1 ≤ last then last - (listRows - 1) else 0
  match key.kind with
  | .up => { browser with viewTop := browser.viewTop - 1 }
  | .down => if browser.viewTop < maxTop then { browser with viewTop := browser.viewTop + 1 } else browser
  | .pageUp => { browser with viewTop := browser.viewTop - listRows }
  | .pageDown => { browser with viewTop := min (browser.viewTop + listRows) maxTop }
  | .home => { browser with viewTop := 0 }
  | .endKey => { browser with viewTop := maxTop }
  | .f3 | .escape => browser.closeView
  | .f10 | .ctrlC => { browser with finished := true }
  | .char => if key.ch = 0x71 then browser.closeView else browser
  | _ => browser

def feed (answers : Answers) (browser : FileBrowser) (key : TuiKey) : FileBrowser :=
  if browser.finished then browser
  else
    match browser.mode with
    | .browse => browser.handleBrowse answers key
    | .prompt => browser.handlePrompt answers key
    | .view => browser.handleView key

/-! ## Panels after an operation -/

/-- The cursor of a panel that shows anything is on one of its rows. -/
def CursorInside (panel : Panel) : Prop := panel.rowCount = 0 ∨ panel.cursor < panel.rowCount

structure Settled (panel : Panel) : Prop where
  cursor : CursorInside panel
  parent : panel.parent = parentOf (volumeRoot panel.volume) panel.dir

variable {answers : Answers} {panel : Panel} {path typed : Bytes} {delta : Int} {count : Nat}

@[simp] theorem reload_dir : (reload answers panel).dir = panel.dir := by
  unfold reload
  dsimp only
  split_ifs <;> rfl

@[simp] theorem reload_volume : (reload answers panel).volume = panel.volume := by
  unfold reload
  dsimp only
  split_ifs <;> rfl

@[simp] theorem reload_parent :
    (reload answers panel).parent = parentOf (volumeRoot panel.volume) panel.dir := by
  unfold reload
  dsimp only
  split_ifs <;> rfl

@[simp] theorem reload_entries : (reload answers panel).entries = entriesOf answers panel.dir := by
  unfold reload
  dsimp only
  split_ifs <;> rfl

theorem rowCount_congr {other : Panel} (hentries : other.entries = panel.entries)
    (hparent : other.parent = panel.parent) : other.rowCount = panel.rowCount := by
  rw [Panel.rowCount, Panel.rowCount, Panel.parentRows, Panel.parentRows, hentries, hparent]

theorem reload_cursor (hrows : (reload answers panel).rowCount ≠ 0) : (reload answers panel).cursor =
      min (wantedIndex (keptName panel) (parentOf (volumeRoot panel.volume) panel.dir)
        (entriesOf answers panel.dir)) ((reload answers panel).rowCount - 1) := by
  have hcount : (reload answers panel).rowCount =
      ({ panel with
        parent := parentOf (volumeRoot panel.volume) panel.dir
        entries := entriesOf answers panel.dir } : Panel).rowCount :=
    rowCount_congr reload_entries reload_parent
  rw [hcount] at hrows ⊢
  unfold reload
  rw [if_neg hrows]

theorem cursorInside_reload : CursorInside (reload answers panel) := by
  by_cases hrows : (reload answers panel).rowCount = 0
  · exact .inl hrows
  · right
    rw [reload_cursor hrows]
    omega

theorem cursorInside_moveCursor (hinside : CursorInside panel) : CursorInside (moveCursor delta panel) := by
  by_cases hrows : panel.rowCount = 0
  · rwa [moveCursor, if_pos hrows]
  · right
    rw [moveCursor, if_neg hrows]
    change (max 0 (min (panel.cursor + delta) (panel.rowCount - 1 : Int))).toNat < panel.rowCount
    omega

theorem cursorInside_cursorOn (hinside : CursorInside panel) : CursorInside (cursorOn path panel) := by
  unfold cursorOn
  cases hfound : panel.entries.findIdx? (leadsTo panel path) with
  | none => exact hinside
  | some i =>
    obtain ⟨hbound, -⟩ := List.findIdx?_eq_some_iff_getElem.mp hfound
    right
    change i + panel.parentRows < panel.entries.length + panel.parentRows
    omega

@[simp] theorem cursorOn_dir : (cursorOn path panel).dir = panel.dir := by
  unfold cursorOn
  split <;> rfl

@[simp] theorem cursorOn_volume : (cursorOn path panel).volume = panel.volume := by
  unfold cursorOn
  split <;> rfl

@[simp] theorem cursorOn_entries : (cursorOn path panel).entries = panel.entries := by
  unfold cursorOn
  split <;> rfl

@[simp] theorem cursorOn_parent : (cursorOn path panel).parent = panel.parent := by
  unfold cursorOn
  split <;> rfl

theorem moveCursor_eq (delta : Int) (panel : Panel) :
    ∃ cursor, moveCursor delta panel = { panel with cursor } := by
  by_cases hrows : panel.rowCount = 0
  · exact ⟨panel.cursor, by rw [moveCursor, if_pos hrows]⟩
  · exact ⟨_, by rw [moveCursor, if_neg hrows]⟩

theorem scrolled_eq (count : Nat) (panel : Panel) : ∃ top, scrolled count panel = { panel with top } := by
  by_cases hrows : panel.rowCount = 0
  · exact ⟨panel.top, by rw [scrolled, if_pos hrows]⟩
  · exact ⟨_, by rw [scrolled, if_neg hrows]⟩

theorem settled_reload : Settled (reload answers panel) where
  cursor := cursorInside_reload
  parent := by rw [reload_parent, reload_volume, reload_dir]

theorem exists_place_of_resolveIn (hresolve : resolveIn panel typed = .ok path) :
    ∃ place : Place, path = place.path := by
  obtain ⟨current, hcurrent⟩ := next_path (.root (kVolumes.headD []) (by decide)) (.changeTo panel.dir)
  have hroot : (Place.root (kVolumes.headD []) (by decide)).path = kVolumes.headD [] := by decide
  rw [hroot, Call.next] at hcurrent
  unfold resolveIn CopyCommands.FileBrowser.resolveIn at hresolve
  cases hchange : changeTo (kVolumes.headD []) panel.dir with
  | error why =>
    rw [hchange] at hresolve
    cases hresolve
  | ok target =>
    rw [hchange] at hresolve hcurrent
    change target = current.path at hcurrent
    rw [hcurrent] at hresolve
    obtain ⟨-, place, -, hpath⟩ := resolve_eq_ok_iff.mp hresolve
    exact ⟨place, hpath⟩

/-! ## What a key does to the panels -/

def opened (browser : FileBrowser) (key : TuiKey) : Option Bytes :=
  if browser.finished = false ∧ browser.mode = .browse ∧ key.kind = .enter then
    match browser.selected with
    | none => none
    | some entry => if entry.isDir then (resolveIn browser.activePanel entry.name).toOption else none
  else none

theorem resolveIn_of_opened {browser : FileBrowser} {key : TuiKey}
    (hopened : browser.opened key = some path) :
    ∃ entry, browser.selected = some entry ∧ entry.isDir ∧
      resolveIn browser.activePanel entry.name = .ok path := by
  unfold opened at hopened
  split_ifs at hopened
  cases hsel : browser.selected with
  | none =>
    rw [hsel] at hopened
    cases hopened
  | some entry =>
    rw [hsel] at hopened
    dsimp only at hopened
    split_ifs at hopened with hdir
    refine ⟨entry, rfl, hdir, ?_⟩
    cases hresolve : resolveIn browser.activePanel entry.name with
    | error why =>
      rw [hresolve] at hopened
      cases hopened
    | ok resolved =>
      rw [hresolve] at hopened
      exact congrArg _ (Option.some.inj hopened)

inductive PanelStep (answers : Answers) (target : Option Bytes) (panel : Panel) : Panel → Prop
  | same : PanelStep answers target panel panel
  | moved (delta : Int) : PanelStep answers target panel (moveCursor delta panel)
  | reloaded : PanelStep answers target panel (reload answers panel)
  | entered {path : Bytes} (htarget : target = some path) :
      PanelStep answers target panel (enter answers path panel)
  | left : PanelStep answers target panel (leave answers panel)
  | switched : PanelStep answers target panel (switched answers panel)

theorem settled_scrolled (hsettled : Settled panel) : Settled (scrolled count panel) := by
  obtain ⟨top, hscrolled⟩ := scrolled_eq count panel
  rw [hscrolled]
  exact ⟨hsettled.cursor, hsettled.parent⟩

theorem settled_step {target : Option Bytes} {panel' : Panel}
    (hstep : PanelStep answers target panel panel') (hsettled : Settled panel) : Settled panel' := by
  cases hstep with
  | same => exact hsettled
  | moved delta =>
    refine ⟨cursorInside_moveCursor hsettled.cursor, ?_⟩
    obtain ⟨cursor, hmoved⟩ := moveCursor_eq delta panel
    rw [hmoved]
    exact hsettled.parent
  | reloaded => exact settled_reload
  | entered htarget => exact settled_reload
  | left =>
    refine ⟨cursorInside_cursorOn cursorInside_reload, ?_⟩
    rw [leave, cursorOn_parent, cursorOn_volume, cursorOn_dir]
    exact settled_reload.parent
  | switched => exact settled_reload

/-- What becomes of the browser while one key is handled; only the active panel opens a directory. -/
structure Changed (answers : Answers) (target : Option Bytes) (before after : FileBrowser) : Prop where
  cols : after.cols = before.cols
  rows : after.rows = before.rows
  panels : ∀ side, PanelStep answers (if side = before.active then target else none)
    (before.panels side) (after.panels side)

variable {browser : FileBrowser} {target : Option Bytes} {key : TuiKey}

variable {work : Panel → Panel}

@[simp] theorem onPanel_self {side : Fin 2} :
    (browser.onPanel side work).panels side = work (browser.panels side) :=
  update_self _ _ _

theorem onPanel_of_ne {side other : Fin 2} (hside : other ≠ side) :
    (browser.onPanel side work).panels other = browser.panels other :=
  update_of_ne hside _ _

theorem Changed.ofPanels {after : FileBrowser} (hcols : after.cols = browser.cols)
    (hrows : after.rows = browser.rows) (hpanels : after.panels = browser.panels) :
    Changed answers target browser after :=
  ⟨hcols, hrows, fun _ ↦ hpanels ▸ .same⟩

theorem changed_self : Changed answers target browser browser := .ofPanels rfl rfl rfl

theorem changed_onPanel {after : FileBrowser} {side : Fin 2}
    (hcols : after.cols = browser.cols) (hrows : after.rows = browser.rows)
    (hpanels : after.panels = (browser.onPanel side work).panels)
    (hwork : PanelStep answers (if side = browser.active then target else none) (browser.panels side)
      (work (browser.panels side))) :
    Changed answers target browser after := by
  refine ⟨hcols, hrows, fun other ↦ ?_⟩
  rw [hpanels]
  by_cases hside : other = side
  · subst hside
    rwa [onPanel_self]
  · rw [onPanel_of_ne hside]
    exact .same

theorem changed_goUp : Changed answers target browser (browser.goUp answers) := by
  unfold goUp
  dsimp only
  split_ifs
  · exact .ofPanels rfl rfl rfl
  · exact changed_onPanel rfl rfl rfl .left

theorem changed_startView : Changed answers target browser (browser.startView answers) := by
  unfold startView
  split
  · exact changed_self
  · split
    · exact .ofPanels rfl rfl rfl
    · split <;> exact .ofPanels rfl rfl rfl

theorem changed_promptSelected {action : PromptAction} {title : Bytes} {text : FileEntry → Bytes} :
    Changed answers target browser (browser.promptSelected action title text) := by
  unfold promptSelected
  split <;> exact .ofPanels rfl rfl rfl

theorem changed_doDelete : Changed answers target browser (browser.doDelete answers) := by
  unfold doDelete
  split
  · exact .ofPanels rfl rfl rfl
  · split_ifs
    · exact .ofPanels rfl rfl rfl
    · exact changed_onPanel rfl rfl rfl .reloaded

theorem changed_applyPrompt : Changed answers target browser (browser.applyPrompt answers) := by
  unfold applyPrompt
  split
  · exact .ofPanels rfl rfl rfl
  · split_ifs
    · exact .ofPanels rfl rfl rfl
    · exact changed_onPanel rfl rfl rfl .reloaded

theorem changed_handlePrompt : Changed answers target browser (browser.handlePrompt answers key) := by
  unfold handlePrompt
  split
  · exact changed_applyPrompt
  · exact .ofPanels rfl rfl rfl
  · exact .ofPanels rfl rfl rfl
  · exact .ofPanels rfl rfl rfl
  · exact .ofPanels rfl rfl rfl
  · split_ifs
    · exact .ofPanels rfl rfl rfl
    · exact changed_self
  · exact changed_self

theorem changed_handleView : Changed answers target browser (browser.handleView key) := by
  unfold handleView
  dsimp only
  split <;> try split_ifs
  all_goals exact .ofPanels rfl rfl rfl

theorem changed_openSelected (hopened : ∀ entry path, browser.selected = some entry →
    entry.isDir → resolveIn browser.activePanel entry.name = .ok path → target = some path) :
    Changed answers target browser (browser.openSelected answers) := by
  unfold openSelected
  dsimp only
  split_ifs
  · exact changed_goUp
  · split
    · exact changed_self
    · rename_i entry hsel
      split
      · exact .ofPanels rfl rfl rfl
      · rename_i path hresolve
        split_ifs with hdir
        · have htarget := hopened entry path hsel hdir hresolve
          exact changed_onPanel rfl rfl rfl (.entered ((if_pos rfl).trans htarget))
        · exact changed_startView

theorem changed_handleBrowse (hopened : key.kind = .enter → ∀ entry path,
    browser.selected = some entry → entry.isDir →
      resolveIn browser.activePanel entry.name = .ok path → target = some path) :
    Changed answers target browser (browser.handleBrowse answers key) := by
  unfold handleBrowse
  split
  case h_7 henter => exact changed_openSelected (hopened henter)
  case h_8 => exact changed_goUp
  case h_10 => exact changed_onPanel rfl rfl rfl .switched
  case h_11 => exact changed_onPanel rfl rfl rfl .switched
  case h_12 => exact changed_startView
  case h_14 => exact changed_promptSelected
  case h_15 => exact changed_promptSelected
  case h_17 => exact changed_doDelete
  all_goals first
    | exact changed_onPanel rfl rfl rfl (.moved _)
    | exact .ofPanels rfl rfl rfl

/-- One key moves a cursor, reads a directory again or goes to another one, and changes no size. -/
theorem changed_feed (answers : Answers) (browser : FileBrowser) (key : TuiKey) :
    Changed answers (browser.opened key) browser (browser.feed answers key) := by
  by_cases hfinished : browser.finished
  · rw [feed, if_pos hfinished]
    exact changed_self
  · rw [feed, if_neg hfinished]
    cases hmode : browser.mode with
    | browse =>
      refine changed_handleBrowse fun henter entry path hsel hdir hresolve ↦ ?_
      rw [opened, if_pos ⟨eq_false_of_ne_true hfinished, hmode, henter⟩, hsel]
      dsimp only
      rw [if_pos hdir, hresolve]
      rfl
    | prompt => exact changed_handlePrompt
    | view => exact changed_handleView

end FileBrowser

end DhcpServer.Net
