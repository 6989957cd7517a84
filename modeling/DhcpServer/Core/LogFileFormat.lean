import DhcpServer.Library.Lines
import DhcpServer.Storage.PathUtil

/-!
# Names and texts of the file logs

The part of the log policy that is addresses and text: the folder an archive is kept in is named by
the days of its first and its last line, and a rotation without an archive carries the last lines.
-/

namespace DhcpServer.Core

open Library Storage.PathUtil List

namespace LogFileFormat

/-- Lines carried into the new file when the archive cannot be written. -/
def kLogFileKeepLines : Nat := 10

/-- Archive attempts before the writer gives up and carries the tail. -/
def kLogFileMaxArchiveAttempts : Nat := 10

def newline : UInt8 := 0x0A

structure LogDate where
  year : Int
  month : Int
  day : Int
deriving DecidableEq

structure LogStamp where
  date : LogDate
  clockSet : Bool

def decimal (number : Nat) : Bytes := (Nat.toDigits 10 number).map fun digit ↦ UInt8.ofNat digit.toNat

/-- `%0<width>d` -/
def zeroPadded (width : Nat) (number : Int) : Bytes :=
  let sign := if number < 0 then ascii "-" else []
  let digits := decimal number.natAbs
  sign ++ List.replicate (width - sign.length - digits.length) 0x30 ++ digits

def dayText (date : LogDate) : Bytes :=
  zeroPadded 4 date.year ++ ascii "." ++ zeroPadded 2 date.month ++ ascii "." ++ zeroPadded 2 date.day

/-- Printed into 32 bytes, the last of them a zero. -/
def logRangeName (first last : LogDate) : Bytes := (dayText first ++ ascii "-" ++ dayText last).take 31

/-- One level for each name, every one inside the one before. -/
def levelsBelow (path : Bytes) : List Bytes → List Bytes
  | [] => []
  | name :: names => (path ++ slash :: name) :: levelsBelow (path ++ slash :: name) names

def logFolderChain (mountPoint archiveFolder rangeName : Bytes) : List Bytes :=
  if mountPoint = [] ∨ archiveFolder = [] ∨ rangeName = [] then []
  else
    let base := if mountPoint.getLast? = some slash then mountPoint.dropLast else mountPoint
    if base = [] then []
    else
      let levels := levelsBelow base ((archiveFolder.splitOn slash).filter (· ≠ []))
      match levels.getLast? with
      | none => []
      | some path => levels ++ [path ++ slash :: rangeName]

/-- The loop that goes back to the newline in front of the tail. `before` is what lies in front of
`tail`, last byte first. -/
def tailFrom (lines : Nat) : Nat → Bytes → Bytes → Bytes
  | _, [], tail => tail
  | found, byte :: before, tail =>
    if byte = newline then
      if found + 1 = lines then tail else tailFrom lines (found + 1) before (byte :: tail)
    else tailFrom lines found before (byte :: tail)

def logTail (text : Bytes) (lines : Nat) : Bytes :=
  if lines = 0 ∨ text = [] then []
  else
    -- a trailing newline ends the last line
    let ended := if text.getLast? = some newline then text.dropLast else text
    tailFrom lines 0 ended.reverse [] ++ [newline]

variable {lines found : Nat} {line before tail : Bytes} {all : List Bytes}

theorem tailFrom_line (hline : newline ∉ line) :
    tailFrom lines found (line.reverse ++ before) tail = tailFrom lines found before (line ++ tail) := by
  induction line using reverseRecOn generalizing tail with
  | nil => rfl
  | append_singleton line byte ih =>
    have hbyte : byte ≠ newline := fun heq ↦ hline (by simp [heq])
    have hrest : newline ∉ line := fun hmem ↦ hline (mem_append_left _ hmem)
    rw [reverse_append, reverse_singleton, singleton_append, cons_append, tailFrom,
      if_neg hbyte, ih hrest, append_assoc, singleton_append]

theorem tailFrom_terminated (hall : ∀ line ∈ all, newline ∉ line) (hfound : found < lines) :
    tailFrom lines found (terminated newline all).reverse tail =
      terminated newline (all.rtake (lines - 1 - found)) ++ tail := by
  induction all using reverseRecOn generalizing found tail with
  | nil => simp [tailFrom]
  | append_singleton all line ih =>
    obtain ⟨hall, hline⟩ := forall_mem_append.mp hall
    have hlast : newline ∉ line := hline line mem_cons_self
    have htext : (terminated newline (all ++ [line])).reverse =
        newline :: (line.reverse ++ (terminated newline all).reverse) := by simp
    rw [htext, tailFrom, if_pos rfl]
    split_ifs with hlines
    · have hnone : lines - 1 - found = 0 := by omega
      simp [hnone]
    · have hstep : lines - 1 - found = lines - 1 - (found + 1) + 1 := by omega
      rw [tailFrom_line hlast, ih hall (by omega), hstep, rtake_concat_succ]
      simp

theorem logTail_terminated (hall : ∀ line ∈ all, newline ∉ line) :
    logTail (terminated newline all) lines = terminated newline (all.rtake lines) := by
  unfold logTail
  cases all using reverseRecOn with
  | nil => simp
  | append_singleton front line =>
    obtain ⟨hfront, hline⟩ := forall_mem_append.mp hall
    have hlast : newline ∉ line := hline line mem_cons_self
    cases lines with
    | zero => simp
    | succ lines =>
      have htext : terminated newline (front ++ [line]) =
          (terminated newline front ++ line) ++ [newline] := by simp
      rw [if_neg (by simp), htext, if_pos getLast?_concat, dropLast_concat]
      change tailFrom (lines + 1) 0 (terminated newline front ++ line).reverse [] ++ [newline] = _
      rw [reverse_append, tailFrom_line hlast, tailFrom_terminated hfront (Nat.succ_pos lines),
        rtake_concat_succ]
      simp

theorem linesOf_logTail (lines : Nat) {text : Bytes} (hwhole : Whole newline text) :
    Whole newline (logTail text lines) ∧
      linesOf newline (logTail text lines) = (linesOf newline text).rtake lines := by
  obtain ⟨all, hall, rfl⟩ := hwhole
  have htail : ∀ line ∈ all.rtake lines, newline ∉ line := fun line hmem ↦ hall line (mem_of_mem_drop hmem)
  rw [logTail_terminated hall, linesOf_terminated hall, linesOf_terminated htail]
  exact ⟨whole_terminated htail, rfl⟩

/-- A text is whole lines, but for the newline behind the last one. -/
theorem whole_append_newline (text : Bytes) : Whole newline (text ++ [newline]) := by
  induction text with
  | nil => exact whole_line not_mem_nil
  | cons byte text ih =>
    obtain ⟨all, hall, htext⟩ := ih
    by_cases hbyte : byte = newline
    · refine ⟨[] :: all, forall_mem_cons.mpr ⟨not_mem_nil, hall⟩, ?_⟩
      rw [terminated_cons, ← htext, hbyte, cons_append, nil_append]
    · cases all with
      | nil => simp at htext
      | cons line all =>
        obtain ⟨hline, hall⟩ := forall_mem_cons.mp hall
        have hmore : newline ∉ byte :: line := by
          rw [mem_cons, not_or]
          exact ⟨Ne.symm hbyte, hline⟩
        refine ⟨(byte :: line) :: all, forall_mem_cons.mpr ⟨hmore, hall⟩, ?_⟩
        rw [cons_append, htext, terminated_cons, terminated_cons, cons_append]

/-- A newline behind an unfinished last line makes no other lines. -/
theorem linesOf_append_newline {text : Bytes} (htext : text ≠ []) (hlast : text.getLast? ≠ some newline) :
    linesOf newline (text ++ [newline]) = linesOf newline text := by
  obtain ⟨all, hall, hwhole⟩ := whole_append_newline text
  cases all using reverseRecOn with
  | nil => simp at hwhole
  | append_singleton front line =>
    obtain ⟨hfront, hline⟩ := forall_mem_append.mp hall
    have hunfinished : newline ∉ line := hline line mem_cons_self
    have hsplit : text = terminated newline front ++ line := by
      rw [terminated_append, terminated_cons, terminated_nil, ← append_assoc] at hwhole
      exact append_cancel_right hwhole
    have hnonempty : line ≠ [] := by
      rintro rfl
      cases front using reverseRecOn with
      | nil => exact htext (by simp [hsplit])
      | append_singleton front last => exact hlast (by simp [hsplit])
    have hsingle : linesOf newline line = [line] := by
      rw [linesOf, splitOn_eq_singleton hunfinished, if_neg (by simpa using hnonempty)]
    rw [hwhole, linesOf_terminated hall, hsplit, linesOf_terminated_append hfront, hsingle]

/-- The tail is the last lines, and a tail is its own tail. -/
theorem logTail_lines (text : Bytes) (lines : Nat) :
    logTail text lines = terminated newline ((linesOf newline text).rtake lines) ∧
      ((linesOf newline text).rtake lines).length = min lines (linesOf newline text).length ∧
      (logTail text lines = [] ↔ lines = 0 ∨ text = []) ∧
      logTail (logTail text lines) lines = logTail text lines := by
  have htail : ∃ all, (∀ line ∈ all, newline ∉ line) ∧ linesOf newline text = all ∧
      logTail text lines = terminated newline (all.rtake lines) := by
    by_cases hlast : text.getLast? = some newline
    · obtain ⟨front, rfl⟩ := getLast?_eq_some_iff.mp hlast
      obtain ⟨all, hall, hwhole⟩ := whole_append_newline front
      rw [hwhole]
      exact ⟨all, hall, linesOf_terminated hall, logTail_terminated hall⟩
    · by_cases htext : text = []
      · subst htext
        exact ⟨[], by simp, linesOf_nil, by simp [logTail]⟩
      · obtain ⟨all, hall, hwhole⟩ := whole_append_newline text
        refine ⟨all, hall, ?_, ?_⟩
        · rw [← linesOf_append_newline htext hlast, hwhole, linesOf_terminated hall]
        · rw [← logTail_terminated hall, ← hwhole, logTail, logTail, if_neg hlast,
            if_pos getLast?_concat, dropLast_concat]
          simp [htext]
  obtain ⟨all, hall, hlines, htail⟩ := htail
  have hlength : (all.rtake lines).length = min lines all.length := by
    rw [List.rtake, length_drop]
    omega
  have hkept : ∀ line ∈ all.rtake lines, newline ∉ line := fun line hmem ↦ hall line (mem_of_mem_drop hmem)
  refine ⟨by rw [hlines, htail], by rw [hlines, hlength], ?_, ?_⟩
  · rw [logTail]
    by_cases hnone : lines = 0 ∨ text = []
    · exact iff_of_true (if_pos hnone) hnone
    · rw [if_neg hnone]
      exact iff_of_false (by simp) hnone
  · have hagain : (all.rtake lines).length - lines = 0 := by omega
    rw [htail, logTail_terminated hkept, List.rtake, hagain, drop_zero]

end LogFileFormat

end DhcpServer.Core
