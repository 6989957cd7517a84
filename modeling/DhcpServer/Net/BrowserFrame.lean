import DhcpServer.Library.Run
import DhcpServer.Net.FileBrowser

/-!
# The frames of the file browser

A frame is rows of painted pieces, and `render` is their text. Every text that comes from a volume goes
through `fit`, which gives it its width and takes its control bytes away. The scroll position of the
active panel is repaired while its rows are drawn, so the frame shows the cursor wherever the keys and
the sizes have left it.
-/

namespace DhcpServer.Net.FileBrowser

open Library Storage.PathUtil FileShellPath List Option
open CopyCommands (FileEntry)

/-! ## The source's functions -/

inductive CellStyle
  | plain
  | pane
  | paneActive
  | directory
  | selected

structure Piece where
  text : Bytes
  style : CellStyle := .plain

/-- Pads or cuts one cell; control bytes become question marks. -/
def fit (text : Bytes) (width : Nat) : Bytes :=
  (text.take width).map (fun byte ↦ if byte < 0x20 ∨ byte = 0x7F then 0x3F else byte) ++
    List.replicate (width - text.length) space

def paneWidth (browser : FileBrowser) : Nat := (browser.cols - kDividerMinWidth) / 2

def dividerWidth (browser : FileBrowser) : Nat := browser.cols - 2 * browser.paneWidth

def divider (browser : FileBrowser) : Piece :=
  ⟨ascii "|" ++ List.replicate (browser.dividerWidth - 1) space, .pane⟩

def barRow (browser : FileBrowser) (text : Bytes) : List Piece := [⟨fit text browser.cols, .plain⟩]

/-- `none`: the directory is shorter than the name of the volume, and `substr` throws. -/
def renderHeaderLine (browser : FileBrowser) (side : Fin 2) : Option Bytes :=
  let panel := browser.panels side
  let volume := volumeRoot panel.volume
  let text := (if side = browser.active then ascii "* " else ascii "  ") ++ volume
  if panel.dir = volume then some text
  else if volume.length ≤ panel.dir.length then some (text ++ panel.dir.drop volume.length)
  else none

def headerPiece (browser : FileBrowser) (side : Fin 2) : Option Piece :=
  (browser.renderHeaderLine side).map fun text ↦
    ⟨fit text browser.paneWidth, if side = browser.active then .paneActive else .pane⟩

def headerRow (browser : FileBrowser) : Option (List Piece) :=
  match browser.headerPiece 0, browser.headerPiece 1 with
  | some left, some right => some [left, browser.divider, right]
  | _, _ => none

def entryName (panel : Panel) (index : Nat) : Bytes :=
  if panel.parent ≠ [] ∧ index = 0 then ascii "../"
  else
    match panel.entries[index - panel.parentRows]? with
    | none => []
    | some entry => if entry.isDir then entry.name ++ ascii "/" else entry.name

def cell (browser : FileBrowser) (row : Nat) (side : Fin 2) : Piece :=
  let panel := browser.panels side
  let index := panel.top + row
  if index < panel.rowCount then
    let isSelected := side = browser.active ∧ index = panel.cursor
    let isParent := panel.parent ≠ [] ∧ index = 0
    ⟨fit ((if isSelected then ascii "> " else ascii "  ") ++ entryName panel index) browser.paneWidth,
      if isSelected then .selected
      else if isParent ∨ (panel.entries[index - panel.parentRows]?).any (·.isDir) then .directory
      else .pane⟩
  else ⟨fit [] browser.paneWidth, .pane⟩

/-- Both panels, with the scroll position of the active one repaired first. -/
def listRow (browser : FileBrowser) (row : Nat) : List Piece × FileBrowser :=
  let browser := browser.onActive (scrolled (browser.rows - 3))
  ([browser.cell row 0, browser.divider, browser.cell row 1], browser)

def listRows (browser : FileBrowser) : List Nat → List (List Piece) × FileBrowser
  | [] => ([], browser)
  | row :: rows =>
    let drawn := browser.listRow row
    let rest := listRows drawn.2 rows
    (drawn.1 :: rest.1, rest.2)

def renderStatus (browser : FileBrowser) : Bytes :=
  if browser.mode = .prompt then browser.promptTitle ++ browser.promptText
  else if browser.mode = .view then browser.viewName
  else if browser.message ≠ [] then browser.message
  else if browser.activePanel.entries.length = 0 then ascii "empty"
  else numeral 10 browser.activePanel.entries.length ++ ascii " entries"

def renderHints (browser : FileBrowser) : Bytes :=
  match browser.mode with
  | .view => ascii "Up/Down PgUp/PgDn Home/End  F3 or q  back  F10 Quit"
  | .prompt => ascii "Enter apply  Esc cancel  F10 Quit"
  | .browse => ascii "F3 View  F4 New  F5 Copy  F6 Ren  F7 Mkdir  F8 Del  Tab  Alt+F1/2  F10 Quit"

def bars (browser : FileBrowser) : List (List Piece) :=
  [browser.barRow browser.renderStatus, browser.barRow browser.renderHints]

/-- The frame, and the browser with the scroll position that drawing has repaired. -/
def buildFrame (browser : FileBrowser) : Option (List (List Piece) × FileBrowser) :=
  let rows := List.range (browser.rows - 3)
  if browser.mode = .view then
    let header : List Piece := [⟨fit (ascii "* " ++ browser.viewName) browser.cols, .paneActive⟩]
    let lines := rows.map fun row ↦
      [⟨fit (browser.viewLines.getD (browser.viewTop + row) []) browser.cols, .pane⟩]
    some (header :: lines ++ browser.bars, browser)
  else
    browser.headerRow.map fun header ↦
      let drawn := browser.listRows rows
      (header :: drawn.1 ++ drawn.2.bars, drawn.2)

def textOf (row : List Piece) : Bytes := row.flatMap (·.text)

def render (browser : FileBrowser) : Option (List Bytes × FileBrowser) :=
  browser.buildFrame.map fun (frame, browser) ↦ (frame.map textOf, browser)

inductive Event
  | key (answers : Answers) (key : TuiKey)
  | resize (cols rows : Int)
  | draw

def next (browser : FileBrowser) : Event → Option FileBrowser
  | .key answers key => some (browser.feed answers key)
  | .resize cols rows => some (browser.resize cols rows)
  | .draw => browser.render.map Prod.snd

def Printable (byte : UInt8) : Prop := ¬byte < 0x20 ∧ byte ≠ 0x7F

instance : DecidablePred Printable := fun _ ↦ inferInstanceAs (Decidable (_ ∧ _))

structure FillsScreen (browser : FileBrowser) (lines : List Bytes) : Prop where
  rows : lines.length = browser.rows
  cols : ∀ line ∈ lines, line.length = browser.cols
  printable : ∀ line ∈ lines, ∀ byte ∈ line, Printable byte

def paneOf (browser : FileBrowser) (side : Fin 2) (line : Bytes) : Bytes :=
  if side = 0 then line.take browser.paneWidth else line.drop (browser.paneWidth + browser.dividerWidth)

/-- One of the lines between the header and the bars shows the row under the cursor, with its mark. -/
def ShowsCursor (browser : FileBrowser) (lines : List Bytes) : Prop :=
  ∃ row < browser.rows - 3, ∃ line, lines[row + 1]? = some line ∧ browser.paneOf browser.active line =
      fit (ascii "> " ++ entryName browser.activePanel browser.activePanel.cursor) browser.paneWidth

def Inside (panel : Panel) : Prop :=
  ∃ place : Place, place.volume = volumeRoot panel.volume ∧ panel.dir = place.path

/-- A directory that the event opens is one of the panel's volume. -/
def OpensInside (browser : FileBrowser) : Event → Prop
  | .key _ key => ∀ path, browser.opened key = some path →
      ∃ rest, Follows rest ∧ path = volumeRoot browser.activePanel.volume ++ rest
  | _ => True

/-! ## Cells -/

variable {browser after : FileBrowser} {panel : Panel} {answers : Answers} {text : Bytes} {width count : Nat}
  {side : Fin 2} {row : Nat} {rows : List Nat} {header : List Piece} {event : Event}

@[simp] theorem length_fit : (fit text width).length = width := by
  rw [fit, length_append, length_map, length_take, length_replicate]
  omega

theorem printable_space : Printable space := by decide

theorem printable_of_mem_fit {byte : UInt8} (hbyte : byte ∈ fit text width) : Printable byte := by
  rcases mem_append.mp hbyte with hshown | hpad
  · obtain ⟨original, -, rfl⟩ := List.mem_map.mp hshown
    split_ifs with hcontrol
    · decide
    · exact not_or.mp hcontrol
  · rw [eq_of_mem_replicate hpad]
    exact printable_space

/-- A row of the frame: as wide as the screen, with nothing in it that a terminal acts on. -/
structure FillsRow (browser : FileBrowser) (row : List Piece) : Prop where
  length : (textOf row).length = browser.cols
  printable : ∀ byte ∈ textOf row, Printable byte

theorem fillsRow_single {style : CellStyle} : FillsRow browser [⟨fit text browser.cols, style⟩] where
  length := by simp [textOf]
  printable := by
    intro byte hbyte
    exact printable_of_mem_fit (by simpa [textOf] using hbyte)

structure Wide (browser : FileBrowser) : Prop where
  cols : kMinCols ≤ browser.cols
  rows : kMinRows ≤ browser.rows

theorem Wide.columns (hwide : Wide browser) :
    browser.paneWidth + (1 + (browser.dividerWidth - 1)) + browser.paneWidth = browser.cols := by
  have hcols := hwide.cols
  simp only [paneWidth, dividerWidth, kMinCols, kDividerMinWidth] at hcols ⊢
  omega

theorem length_divider : browser.divider.text.length = 1 + (browser.dividerWidth - 1) := by
  rw [divider, length_append, length_replicate]
  rfl

theorem printable_of_mem_divider {byte : UInt8} (hbyte : byte ∈ browser.divider.text) : Printable byte := by
  rcases mem_append.mp hbyte with hbar | hpad
  · have hall : ∀ byte ∈ ascii "|", Printable byte := by decide +kernel
    exact hall byte hbar
  · rw [eq_of_mem_replicate hpad]
    exact printable_space

theorem fillsRow_pair {left right : Bytes} {style style' : CellStyle} (hwide : Wide browser) :
    FillsRow browser
      [⟨fit left browser.paneWidth, style⟩, browser.divider, ⟨fit right browser.paneWidth, style'⟩] where
  length := by
    simp only [textOf, flatMap_cons, flatMap_nil, length_append, length_fit, length_divider, length_nil]
    have hwidth := hwide.columns
    omega
  printable := by
    intro byte hbyte
    simp only [textOf, flatMap_cons, flatMap_nil, mem_append, not_mem_nil, or_false] at hbyte
    rcases hbyte with hleft | hdivider | hright
    · exact printable_of_mem_fit hleft
    · exact printable_of_mem_divider hdivider
    · exact printable_of_mem_fit hright

theorem exists_cell (browser : FileBrowser) (row : Nat) (side : Fin 2) :
    ∃ text style, browser.cell row side = ⟨fit text browser.paneWidth, style⟩ := by
  unfold cell
  by_cases hindex : (browser.panels side).top + row < (browser.panels side).rowCount
  · rw [if_pos hindex]
    exact ⟨_, _, rfl⟩
  · rw [if_neg hindex]
    exact ⟨_, _, rfl⟩

/-- The row of the list that a browser with repaired scroll position shows. -/
def shownRow (browser : FileBrowser) (row : Nat) : List Piece :=
  [browser.cell row 0, browser.divider, browser.cell row 1]

theorem fillsRow_shownRow (hwide : Wide browser) (row : Nat) : FillsRow browser (browser.shownRow row) := by
  obtain ⟨left, style, hleft⟩ := browser.exists_cell row 0
  obtain ⟨right, style', hright⟩ := browser.exists_cell row 1
  rw [shownRow, hleft, hright]
  exact fillsRow_pair hwide

theorem exists_headerPiece (hinside : Inside (browser.panels side)) :
    ∃ text style, browser.headerPiece side = some ⟨fit text browser.paneWidth, style⟩ := by
  obtain ⟨place, hvolume, hdir⟩ := hinside
  have hlength : (volumeRoot (browser.panels side).volume).length ≤ (browser.panels side).dir.length := by
    rw [hdir, Place.path, hvolume, length_append]
    omega
  unfold headerPiece renderHeaderLine
  dsimp only
  split_ifs
  all_goals exact ⟨_, _, rfl⟩

theorem exists_headerRow (hinside : ∀ side, Inside (browser.panels side)) (hwide : Wide browser) :
    ∃ header, browser.headerRow = some header ∧ FillsRow browser header := by
  obtain ⟨left, style, hleft⟩ := exists_headerPiece (hinside 0)
  obtain ⟨right, style', hright⟩ := exists_headerPiece (hinside 1)
  have hrow : browser.headerRow = some
      [⟨fit left browser.paneWidth, style⟩, browser.divider, ⟨fit right browser.paneWidth, style'⟩] := by
    rw [headerRow, hleft, hright]
  exact ⟨_, hrow, fillsRow_pair hwide⟩

/-! ## The scroll position -/

@[simp] theorem rowCount_scrolled : (scrolled count panel).rowCount = panel.rowCount := by
  obtain ⟨top, hscrolled⟩ := scrolled_eq count panel
  rw [hscrolled]
  rfl

@[simp] theorem cursor_scrolled : (scrolled count panel).cursor = panel.cursor := by
  obtain ⟨top, hscrolled⟩ := scrolled_eq count panel
  rw [hscrolled]

theorem scrolled_window (hrows : panel.rowCount ≠ 0) (hcount : 0 < count) :
    (scrolled count panel).top ≤ panel.cursor ∧ panel.cursor < (scrolled count panel).top + count := by
  rw [scrolled, if_neg hrows]
  dsimp only
  split_ifs <;> omega

theorem scrolled_scrolled (hcount : 0 < count) :
    scrolled count (scrolled count panel) = scrolled count panel := by
  by_cases hrows : panel.rowCount = 0
  · have hsame : scrolled count panel = panel := by rw [scrolled, if_pos hrows]
    rw [hsame, hsame]
  · obtain ⟨hlow, hhigh⟩ := scrolled_window hrows hcount
    have hrows' : (scrolled count panel).rowCount ≠ 0 := by rwa [rowCount_scrolled]
    conv_lhs => rw [scrolled, if_neg hrows']
    dsimp only
    rw [cursor_scrolled, if_neg (show ¬panel.cursor < (scrolled count panel).top by omega),
      if_neg (by omega)]

def repaired (browser : FileBrowser) : FileBrowser := browser.onActive (scrolled (browser.rows - 3))

@[simp] theorem repaired_rows : browser.repaired.rows = browser.rows := rfl

@[simp] theorem repaired_cols : browser.repaired.cols = browser.cols := rfl

@[simp] theorem repaired_active : browser.repaired.active = browser.active := rfl

theorem repaired_repaired (hrows : 3 < browser.rows) : browser.repaired.repaired = browser.repaired := by
  unfold repaired onActive onPanel
  dsimp only
  rw [Function.update_idem, Function.update_self, scrolled_scrolled (by omega)]

theorem listRow_eq : browser.listRow row = (browser.repaired.shownRow row, browser.repaired) := rfl

theorem listRows_eq (hrows : 3 < browser.rows) (hne : rows ≠ []) :
    browser.listRows rows = (rows.map browser.repaired.shownRow, browser.repaired) := by
  induction rows generalizing browser with
  | nil => exact absurd rfl hne
  | cons row rows ih =>
    rw [listRows, listRow_eq]
    by_cases hrest : rows = []
    · subst hrest
      rfl
    · have hdrawn : browser.repaired.listRows rows = _ := ih hrows hrest
      rw [hdrawn, repaired_repaired hrows]
      rfl

/-! ## Frames -/

theorem fillsScreen_of_rows {frame : List (List Piece)} (hlength : frame.length = browser.rows)
    (hrows : ∀ row ∈ frame, FillsRow browser row) : FillsScreen browser (frame.map textOf) where
  rows := by rw [length_map, hlength]
  cols := by
    intro line hline
    obtain ⟨row, hrow, rfl⟩ := List.mem_map.mp hline
    exact (hrows row hrow).length
  printable := by
    intro line hline
    obtain ⟨row, hrow, rfl⟩ := List.mem_map.mp hline
    exact (hrows row hrow).printable

theorem fillsRow_bars (browser : FileBrowser) : ∀ row ∈ browser.bars, FillsRow browser row := by
  intro row hrow
  rcases mem_pair.mp hrow with rfl | rfl <;> exact fillsRow_single

theorem fillsScreen_frame {lines : List (List Piece)} (hwide : Wide browser)
    (hheader : FillsRow browser header) (hcount : lines.length = browser.rows - 3)
    (hlines : ∀ row ∈ lines, FillsRow browser row) {bars : List (List Piece)}
    (htwo : bars.length = 2) (hbars : ∀ row ∈ bars, FillsRow browser row) :
    FillsScreen browser ((header :: lines ++ bars).map textOf) := by
  have hrows : 8 ≤ browser.rows := hwide.rows
  apply fillsScreen_of_rows
  · rw [length_append, length_cons, hcount, htwo]
    omega
  · intro row hrow
    rcases mem_append.mp hrow with hupper | hbar
    · rcases mem_cons.mp hupper with rfl | hline
      · exact hheader
      · exact hlines row hline
    · exact hbars row hbar

theorem fillsScreen_view (hwide : Wide browser) (hview : browser.mode = .view) :
    ∃ lines, browser.render = some (lines, browser) ∧ FillsScreen browser lines := by
  unfold render buildFrame
  rw [if_pos hview]
  refine ⟨_, rfl, fillsScreen_frame hwide fillsRow_single (by simp) ?_ rfl browser.fillsRow_bars⟩
  intro row hrow
  obtain ⟨index, -, rfl⟩ := List.mem_map.mp hrow
  exact fillsRow_single

theorem render_panels (hrows : 3 < browser.rows) (hmode : browser.mode ≠ .view)
    (hheader : browser.headerRow = some header) :
    browser.render = some
      ((header :: (List.range (browser.rows - 3)).map browser.repaired.shownRow ++
        browser.repaired.bars).map textOf, browser.repaired) := by
  have hne : List.range (browser.rows - 3) ≠ [] := by
    rw [Ne, range_eq_nil]
    omega
  unfold render buildFrame
  rw [if_neg hmode, hheader, listRows_eq hrows hne]
  rfl

theorem paneOf_shownRow (hwide : Wide browser) (side : Fin 2) (row : Nat) :
    browser.paneOf side (textOf (browser.shownRow row)) = (browser.cell row side).text := by
  obtain ⟨left, style, hleft⟩ := browser.exists_cell row 0
  obtain ⟨right, style', hright⟩ := browser.exists_cell row 1
  have htext : textOf (browser.shownRow row) =
      fit left browser.paneWidth ++ (browser.divider.text ++ fit right browser.paneWidth) := by
    rw [shownRow, hleft, hright]
    simp [textOf]
  have hdivider : browser.divider.text.length = browser.dividerWidth := by
    have hcolumns := hwide.columns
    have hcols : kMinCols ≤ browser.cols := hwide.cols
    simp only [length_divider, paneWidth, dividerWidth, kDividerMinWidth, kMinCols] at hcolumns hcols ⊢
    omega
  rw [paneOf, htext]
  match side with
  | 0 =>
    rw [if_pos rfl, take_left' length_fit, hleft]
  | 1 =>
    rw [if_neg (by decide), ← drop_drop, drop_left' length_fit, drop_left' hdivider, hright]

theorem cell_cursor
    (hinside : (browser.panels browser.active).cursor < (browser.panels browser.active).rowCount)
    (hrow : (browser.panels browser.active).top + row = (browser.panels browser.active).cursor) :
    (browser.cell row browser.active).text =
      fit (ascii "> " ++ entryName browser.activePanel browser.activePanel.cursor) browser.paneWidth := by
  unfold cell
  dsimp only
  rw [hrow, if_pos hinside, if_pos ⟨rfl, rfl⟩]
  rfl

theorem entryName_scrolled (index : Nat) :
    entryName (scrolled count panel) index = entryName panel index := by
  obtain ⟨top, hscrolled⟩ := scrolled_eq count panel
  rw [hscrolled]
  rfl

theorem repaired_activePanel (browser : FileBrowser) :
    browser.repaired.activePanel = scrolled (browser.rows - 3) browser.activePanel := onPanel_self

theorem showsCursor_panels (hwide : Wide browser) (hrows : browser.activePanel.rowCount ≠ 0)
    (hcursor : browser.activePanel.cursor < browser.activePanel.rowCount)
    {bars : List (List Piece)} :
    browser.ShowsCursor
      ((header :: (List.range (browser.rows - 3)).map browser.repaired.shownRow ++ bars).map textOf) := by
  have hcount : 8 ≤ browser.rows := hwide.rows
  have hpanel := repaired_activePanel browser
  obtain ⟨hlow, hhigh⟩ := scrolled_window hrows (show 0 < browser.rows - 3 by omega)
  have hrow : browser.activePanel.cursor - browser.repaired.activePanel.top < browser.rows - 3 := by
    rw [hpanel]
    omega
  refine ⟨_, hrow, textOf (browser.repaired.shownRow
    (browser.activePanel.cursor - browser.repaired.activePanel.top)), ?_, ?_⟩
  · rw [getElem?_map, cons_append, getElem?_cons_succ,
      getElem?_append_left (by simpa using hrow), getElem?_map, getElem?_range hrow]
    rfl
  · have hwide' : Wide browser.repaired := ⟨hwide.cols, hwide.rows⟩
    have hinside : browser.repaired.activePanel.cursor < browser.repaired.activePanel.rowCount := by
      rwa [hpanel, cursor_scrolled, rowCount_scrolled]
    have hindex : browser.repaired.activePanel.top +
        (browser.activePanel.cursor - browser.repaired.activePanel.top) =
          browser.repaired.activePanel.cursor := by
      rw [hpanel, cursor_scrolled]
      omega
    have hcell := cell_cursor hinside hindex
    rw [hpanel, cursor_scrolled, entryName_scrolled] at hcell
    have hshown := paneOf_shownRow hwide' browser.active
      (browser.activePanel.cursor - browser.repaired.activePanel.top)
    rw [hpanel] at hshown ⊢
    exact hshown.trans hcell

/-! ## Every run -/

structure Tidy (browser : FileBrowser) : Prop where
  wide : Wide browser
  settled : ∀ side, Settled (browser.panels side)

/-- What a run keeps that opens only directories of the panel's own volume. -/
structure Sound (browser : FileBrowser) : Prop extends Tidy browser where
  inside : ∀ side, Inside (browser.panels side)

theorem volumeRoot_mem : ∀ volume, volumeRoot volume ∈ kVolumes := by decide

theorem inside_root (volume : Fin 2) (hvolume : panel.volume = volume)
    (hdir : panel.dir = volumeRoot volume) : Inside panel := by
  refine ⟨.root (volumeRoot volume) (volumeRoot_mem volume), ?_, ?_⟩
  · rw [hvolume]
    rfl
  · rw [hdir, Place.path, Place.root, joined_nil, append_nil]

theorem inside_congr {other : Panel} (hinside : Inside panel) (hvolume : other.volume = panel.volume)
    (hdir : other.dir = panel.dir) : Inside other := by
  obtain ⟨place, hplace, hpath⟩ := hinside
  exact ⟨place, by rw [hplace, hvolume], by rw [hdir, hpath]⟩

theorem place_volume {place : Place} {volume rest : Bytes} (hvolume : volume ∈ kVolumes)
    (hrest : Follows rest) (hpath : place.path = volume ++ rest) : place.volume = volume := by
  calc
    place.volume = volumeOf place.path := (volumeOf_append place.isVolume (follows_joined _)).symm
    _ = volumeOf (volume ++ rest) := by rw [hpath]
    _ = volume := volumeOf_append hvolume hrest

variable {target : Option Bytes} {panel' : Panel}

theorem inside_step (hstep : PanelStep answers target panel panel') (hinside : Inside panel)
    (htarget : ∀ path, target = some path →
      ∃ place : Place, place.volume = volumeRoot panel.volume ∧ path = place.path) : Inside panel' := by
  cases hstep with
  | same => exact hinside
  | moved delta =>
    obtain ⟨cursor, hmoved⟩ := moveCursor_eq delta panel
    rw [hmoved]
    exact inside_congr hinside rfl rfl
  | reloaded => exact inside_congr hinside reload_volume reload_dir
  | @entered path hopened =>
    obtain ⟨place, hvolume, hpath⟩ := htarget path hopened
    refine ⟨place, ?_, ?_⟩
    · rw [enter, reload_volume, hvolume]
    · rw [enter, reload_dir, hpath]
  | left =>
    refine inside_root panel.volume ?_ ?_
    · rw [leave, cursorOn_volume, reload_volume]
    · rw [leave, cursorOn_dir, reload_dir]
  | switched =>
    refine inside_root (panel.volume + 1) ?_ ?_
    · rw [switched, reload_volume]
    · rw [switched, reload_dir]

theorem wide_clamp (cols rows : Int) : kMinCols ≤ clampCols cols ∧ kMinRows ≤ clampRows rows := by
  constructor
  · unfold clampCols
    split_ifs <;> simp only [kMinCols, kMaxCols] at * <;> omega
  · unfold clampRows
    split_ifs <;> simp only [kMinRows, kMaxRows] at * <;> omega

theorem tidy_start (answers : Answers) (cols rows : Int) : Tidy (start answers cols rows) where
  wide := ⟨(wide_clamp cols rows).1, (wide_clamp cols rows).2⟩
  settled _ := settled_reload

theorem tidy_feed {key : TuiKey} (htidy : Tidy browser) : Tidy (browser.feed answers key) := by
  have hchanged := changed_feed answers browser key
  refine ⟨⟨?_, ?_⟩, fun side ↦ settled_step (hchanged.panels side) (htidy.settled side)⟩
  · rw [hchanged.cols]
    exact htidy.wide.cols
  · rw [hchanged.rows]
    exact htidy.wide.rows

theorem tidy_repaired (htidy : Tidy browser) : Tidy browser.repaired := by
  refine ⟨⟨htidy.wide.cols, htidy.wide.rows⟩, fun side ↦ ?_⟩
  rw [repaired, onActive]
  by_cases hside : side = browser.active
  · rw [hside, onPanel_self]
    exact settled_scrolled (htidy.settled browser.active)
  · rw [onPanel_of_ne hside]
    exact htidy.settled side

theorem after_of_render {lines : List Bytes} (htidy : Tidy browser)
    (hrender : browser.render = some (lines, after)) : after = browser ∨ after = browser.repaired := by
  by_cases hview : browser.mode = .view
  · obtain ⟨lines', hview', -⟩ := fillsScreen_view htidy.wide hview
    left
    exact (Prod.mk.inj (Option.some.inj (hrender.symm.trans hview'))).2
  · have hrows : 8 ≤ browser.rows := htidy.wide.rows
    cases hheader : browser.headerRow with
    | none =>
      unfold render buildFrame at hrender
      rw [if_neg hview, hheader] at hrender
      cases hrender
    | some header =>
      rw [render_panels (by omega) hview hheader] at hrender
      right
      exact (Prod.mk.inj (Option.some.inj hrender)).2.symm

theorem tidy_next (htidy : Tidy browser) (hnext : browser.next event = some after) : Tidy after := by
  cases event with
  | key answers key =>
    cases hnext
    exact tidy_feed htidy
  | resize cols rows =>
    cases hnext
    refine ⟨⟨(wide_clamp cols rows).1, (wide_clamp cols rows).2⟩, fun side ↦ ?_⟩
    exact ⟨(htidy.settled side).cursor, (htidy.settled side).parent⟩
  | draw =>
    obtain ⟨⟨lines, drawn⟩, hrender, rfl⟩ := map_eq_some_iff.mp hnext
    rcases after_of_render htidy hrender with hsame | hrepaired
    · exact hsame ▸ htidy
    · exact hrepaired ▸ tidy_repaired htidy

theorem inside_feed {key : TuiKey} (hinside : ∀ side, Inside (browser.panels side))
    (hopens : OpensInside browser (.key answers key)) (side : Fin 2) :
    Inside ((browser.feed answers key).panels side) := by
  refine inside_step ((changed_feed answers browser key).panels side) (hinside side) fun path htarget ↦ ?_
  split_ifs at htarget with hside
  obtain ⟨entry, -, -, hresolve⟩ := resolveIn_of_opened htarget
  obtain ⟨place, hplace⟩ := exists_place_of_resolveIn hresolve
  obtain ⟨rest, hrest, hpath⟩ := hopens path htarget
  refine ⟨place, ?_, hplace⟩
  rw [hside]
  exact place_volume (volumeRoot_mem _) hrest (hplace.symm.trans hpath)

theorem inside_repaired (hinside : ∀ side, Inside (browser.panels side)) (side : Fin 2) :
    Inside (browser.repaired.panels side) := by
  rw [repaired, onActive]
  by_cases hside : side = browser.active
  · obtain ⟨top, hscrolled⟩ := scrolled_eq (browser.rows - 3) (browser.panels browser.active)
    rw [hside, onPanel_self, hscrolled]
    exact inside_congr (hinside browser.active) rfl rfl
  · rw [onPanel_of_ne hside]
    exact hinside side

theorem sound_next (hsound : Sound browser) (hopens : OpensInside browser event)
    (hnext : browser.next event = some after) : Sound after := by
  refine ⟨tidy_next hsound.toTidy hnext, fun side ↦ ?_⟩
  cases event with
  | key answers key =>
    cases hnext
    exact inside_feed hsound.inside hopens side
  | resize cols rows =>
    cases hnext
    exact inside_congr (hsound.inside side) rfl rfl
  | draw =>
    obtain ⟨⟨lines, drawn⟩, hrender, rfl⟩ := map_eq_some_iff.mp hnext
    rcases after_of_render hsound.toTidy hrender with hsame | hrepaired
    · exact hsame ▸ hsound.inside side
    · exact hrepaired ▸ inside_repaired hsound.inside side

theorem Sound.frame (hsound : Sound browser) :
    ∃ lines after, browser.render = some (lines, after) ∧ FillsScreen browser lines ∧
      (browser.mode ≠ .view → browser.activePanel.rowCount ≠ 0 → browser.ShowsCursor lines) := by
  by_cases hview : browser.mode = .view
  · obtain ⟨lines, hrender, hfills⟩ := fillsScreen_view hsound.wide hview
    exact ⟨lines, browser, hrender, hfills, fun hmode ↦ absurd hview hmode⟩
  · have hrows : 8 ≤ browser.rows := hsound.wide.rows
    obtain ⟨header, hheader, hfillsHeader⟩ := exists_headerRow hsound.inside hsound.wide
    refine ⟨_, _, render_panels (by omega) hview hheader, ?_, fun _ hshown ↦ ?_⟩
    · refine fillsScreen_frame hsound.wide hfillsHeader (by simp) ?_ rfl ?_
      · intro row hrow
        obtain ⟨index, -, rfl⟩ := List.mem_map.mp hrow
        have hfills := fillsRow_shownRow (tidy_repaired hsound.toTidy).wide index
        exact ⟨hfills.length, hfills.printable⟩
      · intro row hrow
        have hfills := fillsRow_bars browser.repaired row hrow
        exact ⟨hfills.length, hfills.printable⟩
    · refine showsCursor_panels hsound.wide hshown ?_
      exact (hsound.settled browser.active).cursor.resolve_left hshown

/-- In every run that opens only directories of the panel's own volume, every frame can be drawn and
fills the screen, and shows the cursor unless a file is viewed; the cursors are inside their lists and
the panels inside their volumes. -/
theorem frames_fit (answers : Answers) (cols rows : Int) {events : List Event}
    (hrun : Run (fun browser event after ↦ OpensInside browser event ∧ browser.next event = some after)
      (start answers cols rows) events browser) :
    (∃ lines after, browser.render = some (lines, after) ∧ FillsScreen browser lines ∧
      (browser.mode ≠ .view → browser.activePanel.rowCount ≠ 0 → browser.ShowsCursor lines)) ∧
    (∀ side, CursorInside (browser.panels side)) ∧ ∀ side, Inside (browser.panels side) := by
  have hstart : Sound (start answers cols rows) :=
    ⟨tidy_start answers cols rows, fun _ ↦ inside_root 0 reload_volume reload_dir⟩
  have hsound : Sound browser := by
    refine hrun.preserves (fun first event last hsound hstep ↦ ?_) hstart
    exact sound_next hsound hstep.1 hstep.2
  exact ⟨hsound.frame, fun side ↦ (hsound.settled side).cursor, hsound.inside⟩

def oneEntry (dir : Bytes) (entry : FileEntry) : Answers where
  list path := if path = dir then (.ok, [entry]) else (.notFound, [])
  perform _ := .ok
  readText _ _ := (.ok, [], false)
  freed := []

def logsOnly : Answers := oneEntry (ascii "/fat") ⟨ascii "logs", true, 0⟩

/-- The name of the entry is the path of the other volume. -/
def strayEntry : Answers := oneEntry (ascii "/sdcard") ⟨ascii "/fat", true, 0⟩

/-- A directory is opened, and the terminal gets another size. -/
theorem frames_fit_intoLogs : ∃ browser : FileBrowser, browser.activePanel.dir = ascii "/fat/logs" ∧
      (∃ lines after, browser.render = some (lines, after) ∧ FillsScreen browser lines ∧
        (browser.mode ≠ .view → browser.activePanel.rowCount ≠ 0 → browser.ShowsCursor lines)) ∧
      (∀ side, CursorInside (browser.panels side)) ∧ ∀ side, Inside (browser.panels side) := by
  have hany : (steps next ((start logsOnly 80 24).feed logsOnly ⟨.enter, 0⟩) [.resize 10 1000, .draw]).any
      (fun browser ↦ browser.activePanel.dir = ascii "/fat/logs") = true := by decide +kernel
  obtain ⟨browser, hrest, hdir⟩ := exists_run_of_any hany
  have hopens : OpensInside (start logsOnly 80 24) (.key logsOnly ⟨.enter, 0⟩) := by
    intro path hopened
    have hlogs : (start logsOnly 80 24).opened ⟨.enter, 0⟩ = some (ascii "/fat/logs") := by
      decide +kernel
    obtain rfl := Option.some.inj (hopened.symm.trans hlogs)
    exact ⟨ascii "/logs", .inr (by decide), by decide⟩
  have hallowed : ∀ event ∈ [Event.resize 10 1000, .draw], ∀ state, OpensInside state event := by
    intro event hevent state
    rcases mem_pair.mp hevent with rfl | rfl <;> trivial
  exact ⟨browser, of_decide_eq_true hdir,
    frames_fit logsOnly 80 24 (.cons ⟨hopens, rfl⟩ (hrest.guarded hallowed))⟩

theorem Inside.isPrefix (hinside : Inside panel) : volumeRoot panel.volume <+: panel.dir := by
  obtain ⟨place, hvolume, hdir⟩ := hinside
  rw [hdir, Place.path, hvolume]
  exact prefix_append _ _

instance (browser : FileBrowser) (lines : List Bytes) : Decidable (ShowsCursor browser lines) :=
  decidable_of_iff
    (∃ row < browser.rows - 3, (lines[row + 1]?).any (fun line ↦
      browser.paneOf browser.active line =
        fit (ascii "> " ++ entryName browser.activePanel browser.activePanel.cursor)
          browser.paneWidth) = true)
    (exists_congr fun row ↦ and_congr_right fun _ ↦ by simp [Option.any_eq_true])

/-- An entry whose name is a path takes the panel out of its volume, and no frame can be drawn any more;
and a file that is viewed leaves no row for the cursor. -/
theorem stray_and_viewed : (∃ browser : FileBrowser,
      Run (fun browser event after ↦ browser.next event = some after) (start strayEntry 80 24)
        [.key strayEntry ⟨.altF1, 0⟩, .key strayEntry ⟨.enter, 0⟩] browser ∧
      browser.render = none ∧ ¬Inside (browser.panels 0)) ∧
    ∃ (browser : FileBrowser) (lines : List Bytes) (after : FileBrowser),
      Run (fun browser event after ↦ browser.next event = some after) (start logsOnly 80 24)
        [.key logsOnly ⟨.f3, 0⟩] browser ∧
      browser.render = some (lines, after) ∧ browser.activePanel.rowCount ≠ 0 ∧
      ¬browser.ShowsCursor lines := by
  constructor
  · have hany : (steps next (start strayEntry 80 24)
        [.key strayEntry ⟨.altF1, 0⟩, .key strayEntry ⟨.enter, 0⟩]).any (fun browser ↦
          browser.render.isNone ∧
            ¬volumeRoot (browser.panels 0).volume <+: (browser.panels 0).dir) = true := by
      decide +kernel
    obtain ⟨browser, hrun, htest⟩ := exists_run_of_any hany
    obtain ⟨hrender, houtside⟩ := of_decide_eq_true htest
    exact ⟨browser, hrun, isNone_iff_eq_none.mp hrender, fun hinside ↦ houtside hinside.isPrefix⟩
  · have hany : (steps next (start logsOnly 80 24) [.key logsOnly ⟨.f3, 0⟩]).any (fun browser ↦
          browser.render.any fun drawn ↦
            browser.activePanel.rowCount ≠ 0 ∧ ¬browser.ShowsCursor drawn.1) = true := by
      decide +kernel
    obtain ⟨browser, hrun, htest⟩ := exists_run_of_any hany
    obtain ⟨⟨lines, after⟩, hrender, hshown⟩ := (Option.any_eq_true _ _).mp htest
    exact ⟨browser, lines, after, hrun, hrender, of_decide_eq_true hshown⟩

end DhcpServer.Net.FileBrowser
