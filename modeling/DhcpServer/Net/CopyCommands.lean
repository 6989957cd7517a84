import DhcpServer.Net.FileShellPath
import DhcpServer.Net.PosixFileOperations

/-!
# The two ways to copy a file

`cp` of the file shell and F5 of the file browser resolve a source and a target, each on its own, and
hand both to the copy of the adapter. The shell asks for the attributes of both before it does; the
browser asks for none.
-/

namespace DhcpServer.Net.CopyCommands

open Library Storage.PathUtil FileShellPath PosixFileOperations Function

structure Args where
  recursive : Bool
  force : Bool
  words : List Bytes

def addWord (args : Args) (word : Bytes) : Args :=
  if word = ascii "-r" then { args with recursive := true }
  else if word = ascii "-f" then { args with force := true }
  else { args with words := args.words ++ [word] }

def parseArgs (rest : Bytes) : Args :=
  ((rest.splitOn space).filter (· ≠ [])).foldl addWord ⟨false, false, []⟩

def kEol : Bytes := [0x0D, 0x0A]

def say (text : Bytes) : Bytes := text ++ kEol

def reasonOf : FileOpStatus → Option Bytes
  | .notFound => some (ascii "no such file or directory")
  | .alreadyExists => some (ascii "already exists")
  | .notDirectory => some (ascii "not a directory")
  | .isDirectory => some (ascii "is a directory")
  | .notEmpty => some (ascii "the directory is not empty")
  | .denied => some (ascii "permission denied")
  | .noSpace => some (ascii "no space left")
  | .ioError => some (ascii "the volume reported an I/O error")
  | .unsupported => some (ascii "not supported by this volume")
  | .ok => none

def sayFailure (verb path : Bytes) (status : FileOpStatus) : Bytes :=
  match reasonOf status with
  | some reason => say (ascii "error: " ++ reason ++ ascii ": " ++ verb ++ [space] ++ path)
  | none => []

def pathExists (volume : Volume) (path : Bytes) (fault : Option FileOpStatus) : Bool :=
  (attributes volume path fault).1 = .ok && (attributes volume path fault).2.found

/-- `cmdCp` once both names are resolved. -/
def copyResolved (fuel : Nat) (faults : Faults) (volume : Volume) (force : Bool)
    (source target : Bytes) : Option (Volume × Bytes) :=
  let about := attributes volume source faults.statFrom
  if about.1 ≠ .ok then some (volume, sayFailure (ascii "cp") source about.1)
  else if about.2.found = false then
    some (volume, say (ascii "error: no such file or directory: " ++ source))
  else if about.2.isDir then
    some (volume, say (ascii "error: directories are not copied: " ++ source))
  else if pathExists volume target faults.statTo ∧ force = false then
    some (volume, say (ascii "error: already exists, use -f: " ++ target))
  else
    (copy fuel faults volume source target).map fun result ↦
      (result.1, sayFailure (ascii "cp") source result.2)

def cmdCp (fuel : Nat) (faults : Faults) (volume : Volume) (current : Bytes) (args : Args) :
    Option (Volume × Bytes) :=
  match args.words with
  | source :: target :: _ =>
    match resolve current source, resolve current target with
    | .error whyFrom, _ => some (volume, say (ascii "error: " ++ whyFrom))
    | .ok _, .error whyTo => some (volume, say (ascii "error: " ++ whyTo))
    | .ok source, .ok target => copyResolved fuel faults volume args.force source target
  | _ => some (volume, say (ascii "error: cp needs a source and a destination"))

def kPromptMaxChars : Nat := 120

structure FileEntry where
  name : Bytes
  isDir : Bool
  size : Nat

instance (priority := 2000) neZero_two : @NeZero Nat Zero.ofOfNat0 2 := ⟨by decide⟩

structure Panel where
  dir : Bytes
  entries : List FileEntry
  /-- empty in the root of a volume -/
  parent : Bytes
  cursor : Nat

structure FileBrowser where
  panels : Fin 2 → Panel
  active : Fin 2

inductive PromptKey
  | char (ch : UInt8)
  | backspace
  | ignored

namespace FileBrowser

def activePanel (browser : FileBrowser) : Panel := browser.panels browser.active

def otherPanel (browser : FileBrowser) : Panel := browser.panels (1 - browser.active)

/-- The entry under the cursor; the first line is the parent where there is one. -/
def selected (browser : FileBrowser) : Option FileEntry :=
  let panel := browser.activePanel
  if panel.parent ≠ [] then
    if panel.cursor = 0 then none else panel.entries[panel.cursor - 1]?
  else panel.entries[panel.cursor]?

/-- A policy of its own is moved to the directory of the panel first. -/
def resolveIn (panel : Panel) (typed : Bytes) : Except Bytes Bytes :=
  match changeTo (kVolumes.headD []) panel.dir with
  | .error _ => .error []
  | .ok current => resolve current typed

/-- The text that F5 opens its prompt with. -/
def prefilled (browser : FileBrowser) (entry : FileEntry) : Bytes :=
  browser.otherPanel.dir ++ [slash] ++ entry.name

def promptTitle : Bytes := ascii "Copy to: "

/-- `handlePrompt` for the keys that leave the prompt open. -/
def handlePrompt (promptText : Bytes) : PromptKey → Bytes
  | .char ch => if promptText.length < kPromptMaxChars then promptText ++ [ch] else promptText
  | .backspace => promptText.dropLast
  | .ignored => promptText

/-- `applyPrompt` of a copy; the answer is the message. -/
def applyPrompt (fuel : Nat) (faults : Faults) (volume : Volume) (browser : FileBrowser)
    (typed : Bytes) : Option (Volume × Bytes) :=
  if typed = [] then some (volume, ascii "error: a name is empty")
  else
    match resolveIn browser.activePanel typed, browser.selected with
    | .error why, _ => some (volume, ascii "error: " ++ why)
    | .ok _, none => some (volume, ascii "error: nothing is selected")
    | .ok target, some entry =>
      let failed := ascii "error: " ++ promptTitle ++ ascii " failed"
      match resolveIn browser.activePanel entry.name with
      | .error _ => some (volume, failed)
      | .ok source =>
        (copy fuel faults volume source target).map fun result ↦
          (result.1, if result.2 = .ok then promptTitle ++ ascii " done" else failed)

/-- F5, the keys of the prompt and Enter. -/
def copySelected (fuel : Nat) (faults : Faults) (volume : Volume) (browser : FileBrowser)
    (keys : List PromptKey) : Option (Volume × Bytes) :=
  match browser.selected with
  | none => some (volume, ascii "error: nothing is selected")
  | some entry =>
    applyPrompt fuel faults volume browser (keys.foldl handlePrompt (browser.prefilled entry))

end FileBrowser

inductive Command
  /-- a `cp` with what follows the verb, after some other commands of the session -/
  | cp (calls : List Call) (rest : Bytes)
  | f5 (browser : FileBrowser) (keys : List PromptKey)

def bothOf : Except Bytes Bytes → Except Bytes Bytes → Option (Bytes × Bytes)
  | .ok source, .ok target => some (source, target)
  | _, _ => none

namespace Command

def run (fuel : Nat) (faults : Faults) (volume : Volume) : Command → Option (Volume × Bytes)
  | cp calls rest => cmdCp fuel faults volume (currentAfter calls) (parseArgs rest)
  | f5 browser keys => browser.copySelected fuel faults volume keys

def names : Command → Option (Bytes × Bytes)
  | cp calls rest =>
    match (parseArgs rest).words with
    | source :: target :: _ =>
      bothOf (resolve (currentAfter calls) source) (resolve (currentAfter calls) target)
    | _ => none
  | f5 browser keys =>
    match browser.selected with
    | none => none
    | some entry =>
      let typed := keys.foldl FileBrowser.handlePrompt (browser.prefilled entry)
      if typed = [] then none
      else bothOf (FileBrowser.resolveIn browser.activePanel entry.name)
        (FileBrowser.resolveIn browser.activePanel typed)

def Overwrites : Command → Prop
  | cp _ rest => (parseArgs rest).force = true
  | f5 _ _ => True

def OntoItself (command : Command) (volume : Volume) : Prop :=
  ∃ path content, command.names = some (path, path) ∧ volume path = some (.file content)

end Command

/-- The source has its bytes, and the other files but the target are as they were. -/
structure Unharmed (names : Option (Bytes × Bytes)) (before after : Volume) : Prop where
  source : ∀ source target content, names = some (source, target) →
    before source = some (.file content) → after source = some (.file content)
  others : ∀ path, (∀ source, names ≠ some (source, path)) → after path = before path

def Ends (run : Nat → Option (Volume × Bytes)) (good : Volume → Prop) : Prop :=
  ∃ enough after said, good after ∧ ∀ fuel, enough ≤ fuel → run fuel = some (after, said)

/-- Whatever fails, among the failures that are considered, the command comes to an end and harms
nothing. -/
def Harmless (considered : Faults → Prop) (command : Command) (volume : Volume) : Prop :=
  ∀ faults, considered faults →
    Ends (fun fuel ↦ command.run fuel faults volume) (Unharmed command.names volume)

variable {faults : Faults} {volume after : Volume} {names : Option (Bytes × Bytes)}
  {source target path content : Bytes} {force : Bool} {statTo : Option FileOpStatus} {fuel : Nat}

theorem Unharmed.refl (names : Option (Bytes × Bytes)) (volume : Volume) : Unharmed names volume volume :=
  ⟨fun _ _ _ _ hfile ↦ hfile, fun _ _ ↦ rfl⟩

theorem Ends.unchanged {said : Bytes} : Ends (fun _ ↦ some (volume, said)) (Unharmed names volume) :=
  ⟨0, volume, said, .refl names volume, fun _ _ ↦ rfl⟩

theorem unharmed_of_onlyAt (honly : OnlyAt target volume after)
    (hsame : source = target → after = volume) : Unharmed (some (source, target)) volume after where
  source := by
    intro first second content hnames hfile
    cases hnames
    by_cases hpath : source = target
    · rwa [hsame hpath]
    · rwa [honly source hpath]
  others := by
    intro path hpath
    refine honly path fun htarget ↦ hpath source ?_
    rw [htarget]

theorem not_unharmed_of_removed (hfile : volume path = some (.file content)) :
    ¬Unharmed (some (path, path)) volume (update volume path none) := by
  intro hunharmed
  have hafter := hunharmed.source path path content rfl hfile
  rw [update_self] at hafter
  cases hafter

theorem ends_copy (hsource : source ≠ target ∨ ∀ content, volume source ≠ some (.file content))
    (answer : FileOpStatus → Bytes) :
    Ends (fun fuel ↦ (copy fuel faults volume source target).map fun result ↦
      (result.1, answer result.2)) (Unharmed (some (source, target)) volume) := by
  obtain ⟨enough, after, status, honly, hsame, hend⟩ := exists_copy faults hsource
  refine ⟨enough, after, answer status, unharmed_of_onlyAt honly hsame, fun fuel hfuel ↦ ?_⟩
  simp only [hend fuel hfuel, Option.map_some]

theorem attributes_file (hfile : volume path = some (.file content)) :
    attributes volume path none = (.ok, ⟨true, false, content.length⟩) := by
  simp only [attributes, hfile]

/-- The checks of the shell keep a file from being copied onto itself only without `-f`, and only
while they get an answer. -/
theorem ends_copyResolved (hsource : ∀ content, source = target → volume source = some (.file content) →
      force = false ∧ faults.StatsAnswer) :
    Ends (fun fuel ↦ copyResolved fuel faults volume force source target)
      (Unharmed (some (source, target)) volume) := by
  simp only [copyResolved]
  split_ifs with hfailed hmissing hdir hexists
  · exact .unchanged
  · exact .unchanged
  · exact .unchanged
  · exact .unchanged
  · refine ends_copy ?_ _
    by_contra honto
    push Not at honto
    obtain ⟨hsame, content, hfile⟩ := honto
    obtain ⟨hforce, -, htarget⟩ := hsource content hsame hfile
    refine hexists ⟨?_, hforce⟩
    rw [pathExists, htarget, ← hsame, attributes_file hfile]
    rfl

theorem copyResolved_self (hfile : volume path = some (.file content))
    (hpasses : force ∨ statTo = some .ioError) :
    copyResolved (fuel + 1) (.closeFails statTo) volume force path path =
      some (update volume path none, sayFailure (ascii "cp") path .ioError) := by
  have hexists : ¬(pathExists volume path statTo = true ∧ force = false) := by
    rintro ⟨hfound, hforce⟩
    obtain rfl := hpasses.resolve_left (by simp [hforce])
    simp [pathExists, attributes] at hfound
  simp [copyResolved, attributes_file hfile, hexists, copy_self hfile]

variable {command : Command}

theorem Command.run_of_names_none (faults : Faults) (volume : Volume)
    (hnames : command.names = none) :
    ∃ said, ∀ fuel, command.run fuel faults volume = some (volume, said) := by
  cases command with
  | cp calls rest =>
    simp only [names] at hnames
    simp only [run, cmdCp]
    split at hnames
    · rename_i first second _ _
      cases hfirst : resolve (currentAfter calls) first with
      | error why => exact ⟨_, fun _ ↦ rfl⟩
      | ok source =>
        cases hsecond : resolve (currentAfter calls) second with
        | error why => exact ⟨_, fun _ ↦ rfl⟩
        | ok target => simp [hfirst, hsecond, bothOf] at hnames
    · exact ⟨_, fun _ ↦ rfl⟩
  | f5 browser keys =>
    simp only [names] at hnames
    simp only [run, FileBrowser.copySelected]
    cases hsel : browser.selected with
    | none => exact ⟨_, fun _ ↦ rfl⟩
    | some entry =>
      simp only [hsel] at hnames
      simp only [FileBrowser.applyPrompt, hsel]
      split_ifs with hempty
      · exact ⟨_, fun _ ↦ rfl⟩
      · rw [if_neg hempty] at hnames
        split
        · exact ⟨_, fun _ ↦ rfl⟩
        · exact ⟨_, fun _ ↦ rfl⟩
        · rename_i target other htarget hsome
          cases hsome
          cases hsource : FileBrowser.resolveIn browser.activePanel entry.name with
          | error why => exact ⟨_, fun _ ↦ rfl⟩
          | ok source => simp [hsource, htarget, bothOf] at hnames

theorem Command.run_of_names_some (hnames : command.names = some (source, target)) :
    (∃ force, (force = true ↔ command.Overwrites) ∧ ∀ fuel faults volume,
      command.run fuel faults volume = copyResolved fuel faults volume force source target) ∨
    command.Overwrites ∧ ∃ answer : FileOpStatus → Bytes, ∀ fuel faults volume,
      command.run fuel faults volume =
        (copy fuel faults volume source target).map fun result ↦ (result.1, answer result.2) := by
  cases command with
  | cp calls rest =>
    refine .inl ⟨(parseArgs rest).force, Iff.rfl, fun fuel faults volume ↦ ?_⟩
    simp only [names] at hnames
    simp only [run, cmdCp]
    split at hnames
    · rename_i first second _ _
      cases hfirst : resolve (currentAfter calls) first <;>
        cases hsecond : resolve (currentAfter calls) second <;>
          simp only [hfirst, hsecond, bothOf, reduceCtorEq, Option.some.injEq, Prod.mk.injEq] at hnames
      obtain ⟨rfl, rfl⟩ := hnames
      rfl
    · cases hnames
  | f5 browser keys =>
    refine .inr ⟨trivial, fun status ↦ if status = .ok then FileBrowser.promptTitle ++ ascii " done"
      else ascii "error: " ++ FileBrowser.promptTitle ++ ascii " failed", fun fuel faults volume ↦ ?_⟩
    simp only [names] at hnames
    simp only [run, FileBrowser.copySelected]
    cases hsel : browser.selected with
    | none => simp [hsel] at hnames
    | some entry =>
      simp only [hsel] at hnames
      split_ifs at hnames with hempty
      simp only [FileBrowser.applyPrompt, hsel, if_neg hempty]
      cases hfirst : FileBrowser.resolveIn browser.activePanel entry.name <;>
        cases hsecond : FileBrowser.resolveIn browser.activePanel
          (keys.foldl FileBrowser.handlePrompt (browser.prefilled entry)) <;>
        simp only [hfirst, hsecond, bothOf, reduceCtorEq, Option.some.injEq, Prod.mk.injEq] at hnames
      obtain ⟨rfl, rfl⟩ := hnames
      simp only [hfirst]

theorem ends_of_not_onto (honto : command.OntoItself volume → ¬command.Overwrites ∧ faults.StatsAnswer) :
    Ends (fun fuel ↦ command.run fuel faults volume) (Unharmed command.names volume) := by
  cases hnames : command.names with
  | none =>
    obtain ⟨said, hrun⟩ := Command.run_of_names_none faults volume hnames
    simp only [hrun]
    exact .unchanged
  | some paths =>
    obtain ⟨source, target⟩ := paths
    have hself : ∀ content, source = target → volume source = some (.file content) →
        command.OntoItself volume := by
      rintro content rfl hfile
      exact ⟨source, content, hnames, hfile⟩
    rcases Command.run_of_names_some hnames with ⟨force, hforce, hrun⟩ | ⟨hover, answer, hrun⟩
    · simp only [hrun]
      refine ends_copyResolved fun content hsame hfile ↦ ?_
      obtain ⟨hover, hstats⟩ := honto (hself content hsame hfile)
      exact ⟨Bool.eq_false_iff.mpr (mt hforce.mp hover), hstats⟩
    · simp only [hrun]
      refine ends_copy ?_ answer
      by_contra hfile
      push Not at hfile
      obtain ⟨hsame, content, hfile⟩ := hfile
      exact (honto (hself content hsame hfile)).1 hover

theorem not_ends_of_onto (honto : command.OntoItself volume)
    (hpasses : command.Overwrites ∨ statTo = some .ioError) :
    ¬Ends (fun fuel ↦ command.run fuel (.closeFails statTo) volume) (Unharmed command.names volume) := by
  rintro ⟨enough, after, said, hunharmed, hend⟩
  obtain ⟨path, content, hnames, hfile⟩ := honto
  have hremoved : after = update volume path none := by
    have hafter : command.run (enough + 1) (.closeFails statTo) volume = some (after, said) :=
      hend (enough + 1) (Nat.le_succ enough)
    rcases Command.run_of_names_some hnames with ⟨force, hforce, hrun⟩ | ⟨-, answer, hrun⟩
    · rw [hrun, copyResolved_self hfile (hpasses.imp_left hforce.mpr)] at hafter
      exact (Prod.mk.inj (Option.some.inj hafter)).1.symm
    · rw [hrun, copy_self hfile] at hafter
      exact (Prod.mk.inj (Option.some.inj hafter)).1.symm
  rw [hnames, hremoved] at hunharmed
  exact not_unharmed_of_removed hfile hunharmed

/-- A copy harms nothing exactly where it does not copy a file onto itself; while the attributes of
the files can be read, `cp` without `-f` does not. -/
theorem harmless_iff (command : Command) (volume : Volume) :
    (Harmless (fun _ ↦ True) command volume ↔ ¬command.OntoItself volume) ∧
    (Harmless Faults.StatsAnswer command volume ↔ ¬(command.OntoItself volume ∧ command.Overwrites)) := by
  refine ⟨⟨fun hharmless honto ↦ ?_, fun honto faults _ ↦ ?_⟩,
    ⟨fun hharmless hboth ↦ ?_, fun hboth faults hstats ↦ ?_⟩⟩
  · exact not_ends_of_onto honto (.inr rfl) (hharmless (.closeFails (some .ioError)) trivial)
  · exact ends_of_not_onto (absurd · honto)
  · exact not_ends_of_onto hboth.1 (.inl hboth.2) (hharmless (.closeFails none) ⟨rfl, rfl⟩)
  · exact ends_of_not_onto fun honto ↦ ⟨fun hover ↦ hboth ⟨honto, hover⟩, hstats⟩

def samplePanel : Panel := ⟨ascii "/fat", [⟨ascii "config.txt", false, 3⟩], [], 0⟩

def samplePanels : FileBrowser := ⟨fun _ ↦ samplePanel, 0⟩

def sampleVolume : Volume := update (fun _ ↦ none) (ascii "/fat/config.txt") (some (.file [1, 2, 3]))

/-- F5 and Enter: the pre-filled target is the source. Nothing fails, the copy is reported as done
and the file is empty. -/
theorem prefilled_copy_empties : ((Command.f5 samplePanels []).run 1 .none sampleVolume).map (fun result ↦
      (result.1 (ascii "/fat/config.txt"), result.2)) =
        some (some (.file []), ascii "Copy to:  done") ∧
    ¬Harmless (fun _ ↦ True) (.f5 samplePanels []) sampleVolume := by
  refine ⟨by decide +kernel, fun hharmless ↦ ?_⟩
  have honto : (Command.f5 samplePanels []).OntoItself sampleVolume :=
    ⟨ascii "/fat/config.txt", [1, 2, 3], by decide +kernel, by decide +kernel⟩
  exact not_ends_of_onto honto (.inl trivial) (hharmless (.closeFails none) trivial)

end DhcpServer.Net.CopyCommands
