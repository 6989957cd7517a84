import DhcpServer.Files.VolumeRepair

/-!
# What a repair removes

A finding stays true as long as nothing new comes to its place: what is at or under its path is what was
there when the walk noted it, or less. The invariant says so of every finding a repair may still act on. The
root of the volume is a finding like any other one when the walk cannot open it, and the report a repair
starts from may be of any age.
-/

namespace DhcpServer.Files.VolumeRepair

open Library List Option

/-- At and under the path there is no file that was not there when it was found. -/
structure Finding.True (finding : Finding) (contents : Bytes → Contents) : Prop where
  notRoot : finding.path ≠ []
  files : ∀ (path : Path) (file : Nat), finding.path <+: path →
    (contents finding.volume).find path = some (.file file) → finding.seen.find path = some (.file file)

/-- The findings are true, the ones that belong together are of one volume, and every removal so far was
justified. -/
structure Sound (state : State) : Prop where
  findings : ∀ finding ∈ state.findings, finding.True state.contents
  check : ∀ finding ∈ state.check.errors, finding.volume = state.check.volume
  walk : ∀ walk, state.walk = some walk → ∀ finding ∈ walk.report.errors,
    finding.volume = walk.report.volume
  repair : ∀ finding ∈ state.repair.phase.left, finding.volume = state.repair.volume
  removals : RemovesOnlyFound state

variable {state state' : State} {contents : Bytes → Contents} {finding : Finding}

theorem mem_findings : finding ∈ state.findings ↔ finding ∈ state.check.errors ∨
    (∃ walk, state.walk = some walk ∧ finding ∈ walk.report.errors) ∨
    finding ∈ state.repair.phase.left := by
  unfold State.findings
  cases state.walk <;> simp

variable {volume : Bytes}

theorem Finding.True.of_update {after : Contents} (htrue : finding.True contents)
    (hafter : finding.volume = volume → ∀ (path : Path) (file : Nat), finding.path <+: path →
      after.find path = some (.file file) → (contents volume).find path = some (.file file)) :
    finding.True (Function.update contents volume after) := by
  refine ⟨htrue.notRoot, fun path file hbelow hfile ↦ ?_⟩
  rw [Function.update_apply] at hfile
  split_ifs at hfile with hvolume
  · have hold := hafter hvolume path file hbelow hfile
    exact htrue.files path file hbelow (hvolume ▸ hold)
  · exact htrue.files path file hbelow hfile

theorem Sound.setContents (hsound : Sound state) {after : Contents}
    (hafter : ∀ finding ∈ state.findings, finding.volume = volume → ∀ (path : Path) (file : Nat),
      finding.path <+: path → after.find path = some (.file file) →
        (state.contents volume).find path = some (.file file)) :
    Sound (state.setContents volume after) :=
  ⟨fun finding hfinding ↦ (hsound.findings finding hfinding).of_update (hafter finding hfinding),
    hsound.check, hsound.walk, hsound.repair, hsound.removals⟩

theorem Sound.removeTree (hsound : Sound state) (volume : Bytes) (path : Path) (sticks : Path → Bool) :
    Sound (state.setContents volume ((state.contents volume).removeTree path sticks)) :=
  hsound.setContents fun _ _ _ _ _ _ hfile ↦ FileTree.find_of_find_removeTree hfile

theorem Sound.format (hsound : Sound state) (volume : Bytes) : Sound (state.setContents volume .empty) :=
  hsound.setContents fun _ _ _ _ _ _ hfile ↦ by simp [FileTree.find, FileTree.empty] at hfile

variable {path : Path}

theorem Sound.put (hsound : Sound state) {written : Contents}
    (hwritten : (state.contents volume).write path state.next = some written)
    (hcareful : Careful state (.put volume path)) :
    Sound { state.setContents volume written with next := state.next + 1 } := by
  have hset : Sound (state.setContents volume written) := by
    refine hsound.setContents fun finding hfinding hvolume other file hbelow hfile ↦ ?_
    rw [(FileTree.write_spec hwritten).2] at hfile
    split_ifs at hfile with hsame
    · exact absurd (hsame ▸ hbelow) (hcareful finding hfinding hvolume)
    · exact hfile
  exact ⟨hset.findings, hset.check, hset.walk, hset.repair, hset.removals⟩

theorem Sound.mkdir (hsound : Sound state) {made : Contents}
    (hmade : (state.contents volume).mkdir path = some made) : Sound (state.setContents volume made) := by
  refine hsound.setContents fun finding _ _ other file _ hfile ↦ ?_
  rw [(FileTree.mkdir_spec hmade).2.2.2] at hfile
  split_ifs at hfile with hsame
  · cases hfile
  · exact hfile

theorem Sound.rename (hsound : Sound state) {source target : Path} {moved : Contents}
    (hmoved : (state.contents volume).rename source target = some moved)
    (hcareful : Careful state (.rename volume source target)) : Sound (state.setContents volume moved) := by
  obtain ⟨hmovable, rfl⟩ := FileTree.rename_spec hmoved
  refine hsound.setContents fun finding hfinding hvolume other file hbelow hfile ↦ ?_
  obtain ⟨habove, hunder⟩ := hcareful finding hfinding hvolume
  have htarget : ¬ target <+: other := fun hother ↦
    ( prefix_or_prefix_of_prefix hbelow hother).elim habove hunder
  by_cases hsource : source <+: other
  · rw [hmovable.find_rename_of_source hsource htarget] at hfile
    cases hfile
  · rwa [hmovable.find_rename_outside hsource htarget] at hfile

theorem Sound.setWalk (hsound : Sound state) {walk walk' : Walk} (hwalk : state.walk = some walk)
    (hvolume : walk'.report.volume = walk.report.volume)
    (hfindings : ∀ finding ∈ walk'.report.errors, finding ∈ walk.report.errors ∨
      finding.True state.contents ∧ finding.volume = walk.report.volume) :
    Sound { state with walk := some walk' } := by
  refine ⟨fun finding hfinding ↦ ?_, hsound.check, fun same hsame finding hfinding ↦ ?_, hsound.repair,
    hsound.removals⟩
  · rcases mem_findings.mp hfinding with hcheck | ⟨same, hsame, hmem⟩ | hleft
    · exact hsound.findings finding (mem_findings.mpr (.inl hcheck))
    · cases hsame
      rcases hfindings finding hmem with hold | ⟨htrue, -⟩
      · exact hsound.findings finding (mem_findings.mpr (.inr (.inl ⟨walk, hwalk, hold⟩)))
      · exact htrue
    · exact hsound.findings finding (mem_findings.mpr (.inr (.inr hleft)))
  · cases hsame
    rw [hvolume]
    rcases hfindings finding hfinding with hold | ⟨-, hnew⟩
    · exact hsound.walk walk hwalk finding hold
    · exact hnew

theorem mem_noteError {walk : Walk} {tree : Contents}
    (hfinding : finding ∈ (walk.noteError tree path).report.errors) :
    finding ∈ walk.report.errors ∨ finding = ⟨walk.report.volume, path, tree⟩ := by
  unfold Walk.noteError at hfinding
  dsimp only at hfinding
  split_ifs at hfinding
  · exact (mem_append.mp hfinding).imp_right mem_singleton.mp
  · exact .inl hfinding

theorem visit_report (walk : Walk) (tree : Contents) (path : Path) (found : Found) :
    (walk.visit tree path found).report.volume = walk.report.volume ∧
      ∀ finding ∈ (walk.visit tree path found).report.errors,
        finding ∈ walk.report.errors ∨ finding = ⟨walk.report.volume, path, tree⟩ := by
  cases found with
  | unstatable => exact ⟨rfl, fun _ ↦ mem_noteError⟩
  | dir => exact ⟨rfl, fun _ ↦ .inl⟩
  | file size opens readable ioError =>
    unfold Walk.visit
    dsimp only
    split_ifs
    · exact ⟨rfl, fun _ ↦ .inl⟩
    · exact ⟨rfl, fun _ ↦ mem_noteError⟩
    · exact ⟨rfl, fun _ ↦ .inl⟩
    · exact ⟨rfl, fun _ ↦ mem_noteError⟩
    · exact ⟨rfl, fun _ ↦ .inl⟩

theorem noted_true (hpath : path ≠ []) :
    (⟨volume, path, state.contents volume⟩ : Finding).True state.contents :=
  ⟨hpath, fun _ _ _ hfile ↦ hfile⟩

section

variable (hsound : Sound state)
include hsound

theorem Sound.entry {walk : Walk} {dir : Path} {name : Bytes} {found : Found}
    (hwalk : state.walk = some walk) :
    Sound { state with
      walk := some (walk.visit (state.contents walk.report.volume) (dir ++ [name]) found) } := by
  obtain ⟨hvolume, herrors⟩ := visit_report walk (state.contents walk.report.volume) (dir ++ [name]) found
  refine hsound.setWalk hwalk hvolume fun finding hfinding ↦ (herrors finding hfinding).imp_right ?_
  rintro rfl
  exact ⟨noted_true (by simp), rfl⟩

theorem Sound.noteDir {walk walk' : Walk} {dir : Path} (hwalk : state.walk = some walk)
    (hvolume : walk'.report.volume = walk.report.volume) (herrors : walk'.report.errors = walk.report.errors)
    (hdir : dir ≠ []) :
    Sound { state with walk := some (walk'.noteError (state.contents walk'.report.volume) dir) } := by
  refine hsound.setWalk hwalk hvolume fun finding hfinding ↦ ?_
  rcases mem_noteError hfinding with hold | rfl
  · exact .inl (herrors ▸ hold)
  · exact .inr ⟨noted_true hdir, hvolume⟩

theorem Sound.setCheck {check : CheckReport} {walk : Option Walk}
    (hcheck : ∀ finding ∈ check.errors, finding ∈ state.findings ∧ finding.volume = check.volume)
    (hwalk : ∀ walk', walk = some walk' → walk'.report.errors = []) :
    Sound { state with check, walk } := by
  refine ⟨fun finding hfinding ↦ ?_, fun finding hfinding ↦ (hcheck finding hfinding).2,
    fun walk' hsome finding hfinding ↦ by simp [hwalk walk' hsome] at hfinding, hsound.repair,
    hsound.removals⟩
  rcases mem_findings.mp hfinding with hnew | ⟨walk', hsome, hmem⟩ | hleft
  · exact hsound.findings finding (hcheck finding hnew).1
  · simp [hwalk walk' hsome] at hmem
  · exact hsound.findings finding (mem_findings.mpr (.inr (.inr hleft)))

theorem Sound.startCheck (volume : Bytes) (created : Bool) : Sound (state.startCheck volume created) := by
  unfold State.startCheck
  split_ifs
  · refine hsound.setCheck (by simp) fun walk' hsome ↦ ?_
    cases hsome
    rfl
  · have hkept : Sound { state with check := { finished := true, volume }, walk := none } :=
      hsound.setCheck (by simp) (by simp)
    refine ⟨fun finding hfinding ↦ ?_, by simp, hsound.walk, hsound.repair, hsound.removals⟩
    rcases mem_findings.mp hfinding with hnew | hold
    · simp at hnew
    · exact hsound.findings finding (mem_findings.mpr (.inr hold))

theorem Sound.finishCheck {walk : Walk} (hwalk : state.walk = some walk)
    (cancelled : Bool) : Sound (state.finishCheck { walk.report with cancelled }) := by
  refine hsound.setCheck (fun finding hfinding ↦ ⟨?_, hsound.walk walk hwalk finding hfinding⟩) (by simp)
  exact mem_findings.mpr (.inr (.inl ⟨walk, hwalk, hfinding⟩))

theorem Sound.setRepair {repair : Repair}
    (hleft : ∀ finding ∈ repair.phase.left, finding ∈ state.findings ∧ finding.volume = repair.volume) :
    Sound { state with repair } := by
  refine ⟨fun finding hfinding ↦ ?_, hsound.check, hsound.walk, fun finding hfinding ↦
    (hleft finding hfinding).2, hsound.removals⟩
  rcases mem_findings.mp hfinding with hcheck | hwalk | hnew
  · exact hsound.findings finding (mem_findings.mpr (.inl hcheck))
  · exact hsound.findings finding (mem_findings.mpr (.inr (.inl hwalk)))
  · exact hsound.findings finding (hleft finding hnew).1

theorem Sound.finishRepair : Sound state.finishRepair :=
  hsound.setRepair (by simp [Repair.finish, RepairPhase.left])

theorem Sound.takeList (hvolume : state.check.volume = state.repair.volume)
    (round : Nat) : Sound (state.takeList round) :=
  hsound.setRepair fun finding hfinding ↦
    ⟨mem_findings.mpr (.inl hfinding), (hsound.check finding hfinding).trans hvolume⟩

theorem Sound.justified (hleft : finding ∈ state.repair.phase.left)
    (sticks : Path → Bool) :
    Removal.Justified ⟨state.repair.volume, finding, state.contents state.repair.volume,
      (state.contents state.repair.volume).removeTree finding.path sticks⟩ := by
  have htrue := hsound.findings finding (mem_findings.mpr (.inr (.inr hleft)))
  have hvolume := hsound.repair finding hleft
  refine ⟨htrue.notRoot, hvolume, fun path file hbefore hafter ↦ ?_⟩
  have hbelow : finding.path <+: path := by
    by_contra houtside
    exact hafter ((FileTree.find_removeTree_outside houtside).trans hbefore)
  exact ⟨hbelow, htrue.files path file hbelow (hvolume ▸ hbefore)⟩

theorem Sound.removeEntry {paths left : List Finding} {deletedHere : Nat}
    (hphase : state.repair.phase = .batch paths (finding :: left) deletedHere) (sticks : Path → Bool) :
    Sound (state.removeEntry finding paths left deletedHere sticks) := by
  have hmem : ∀ other ∈ finding :: left, other ∈ state.repair.phase.left := by
    simp [hphase, RepairPhase.left]
  have hjustified := hsound.justified (hmem finding mem_cons_self) sticks
  have hremoved := hsound.removeTree state.repair.volume finding.path sticks
  have hlist (repair : Repair) (hleft : repair.phase.left = left)
      (hvolume : repair.volume = state.repair.volume) :
      Sound { state.setContents state.repair.volume
          ((state.contents state.repair.volume).removeTree finding.path sticks) with
        repair
        removals := state.removals ++ [⟨state.repair.volume, finding, state.contents state.repair.volume,
          (state.contents state.repair.volume).removeTree finding.path sticks⟩] } := by
    have hgoes : Sound { state.setContents state.repair.volume
        ((state.contents state.repair.volume).removeTree finding.path sticks) with repair } := by
      refine hremoved.setRepair fun other hother ↦ ?_
      have hold := hmem other (mem_cons_of_mem finding (hleft ▸ hother))
      exact ⟨mem_findings.mpr (.inr (.inr hold)), (hsound.repair other hold).trans hvolume.symm⟩
    refine ⟨hgoes.findings, hgoes.check, hgoes.walk, hgoes.repair, fun removal hremoval ↦ ?_⟩
    rcases mem_append.mp hremoval with hold | hnew
    · exact hsound.removals removal hold
    · obtain rfl := mem_singleton.mp hnew
      exact hjustified
  unfold State.removeEntry
  dsimp only
  split_ifs
  · exact hlist _ rfl rfl
  · exact hlist _ rfl rfl

theorem Sound.openDir {opens : Bool} (hcareful : Careful state (.openDir opens))
    (hstep : step state (.openDir opens) = some state') : Sound state' := by
  unfold step at hstep
  cases hwalk : state.walk with
  | none => simp [hwalk] at hstep
  | some walk =>
    simp only [hwalk] at hstep
    split at hstep
    · rename_i dir pending _ hpending
      split_ifs at hstep with hopens
      all_goals
        cases hstep
      · exact hsound.setWalk hwalk rfl fun _ ↦ .inl
      · have hroot := hcareful (by simpa using hopens) walk hwalk
        exact hsound.noteDir hwalk rfl rfl (by simpa [hpending] using hroot)
    · cases hstep

theorem Sound.nextWalk {created : Bool}
    (hstep : step state (.nextWalk created) = some state') : Sound state' := by
  unfold step at hstep
  dsimp only at hstep
  split at hstep
  · rename_i paths deletedHere hphase
    split_ifs at hstep
    all_goals
      cases hstep
    · exact hsound.finishRepair
    · have hstarted := hsound.startCheck state.repair.volume created
      exact hstarted.setRepair (by simp [RepairPhase.left])
    · exact (hsound.startCheck state.repair.volume created).finishRepair
  · cases hstep

theorem Sound.poll (hcareful : Careful state .poll)
    (hstep : step state .poll = some state') : Sound state' := by
  unfold step at hstep
  dsimp only at hstep
  split at hstep
  · split_ifs at hstep with hbusy hover
    all_goals
      cases hstep
    · exact hsound
    · exact hsound.finishRepair
    · simp only [not_or, Bool.not_eq_true] at hover
      exact hsound.takeList (hcareful (by simpa using hbusy) hover.2.2.1) _
  · cases hstep

theorem Sound.takeReport (hcareful : Careful state .takeReport)
    (hstep : step state .takeReport = some state') : Sound state' := by
  unfold step at hstep
  dsimp only at hstep
  split at hstep
  · split_ifs at hstep with hempty
    all_goals
      cases hstep
    · exact hsound.finishRepair
    · exact hsound.takeList (hcareful (by simpa using hempty)) 1
  · cases hstep

end

theorem sound_step {event : Event} (hcareful : Careful state event) (hsound : Sound state)
    (hstep : Step state event state') : Sound state' := by
  unfold Step at hstep
  cases event with
  | put volume path =>
    obtain ⟨written, hwritten, rfl⟩ := map_eq_some_iff.mp hstep
    exact hsound.put hwritten hcareful
  | mkdir volume path =>
    obtain ⟨made, hmade, rfl⟩ := map_eq_some_iff.mp hstep
    exact hsound.mkdir hmade
  | rename volume source target =>
    obtain ⟨moved, hmoved, rfl⟩ := map_eq_some_iff.mp hstep
    exact hsound.rename hmoved hcareful
  | remove volume path sticks =>
    simp only [step] at hstep
    split_ifs at hstep
    cases hstep
    exact hsound.removeTree volume path sticks
  | format volume =>
    simp only [step] at hstep
    split_ifs at hstep
    cases hstep
    exact hsound.format volume
  | checkStart volume created =>
    simp only [step] at hstep
    split_ifs at hstep
    cases hstep
    exact hsound.startCheck volume created
  | openDir opens => exact hsound.openDir hcareful hstep
  | entry name found =>
    simp only [step] at hstep
    cases hwalk : state.walk with
    | none => simp [hwalk] at hstep
    | some walk =>
      simp only [hwalk] at hstep
      split at hstep
      · cases hstep
        exact hsound.entry hwalk
      · cases hstep
  | closeDir =>
    simp only [step] at hstep
    cases hwalk : state.walk with
    | none => simp [hwalk] at hstep
    | some walk =>
      simp only [hwalk, Option.some.injEq] at hstep
      subst hstep
      exact hsound.setWalk hwalk rfl fun _ ↦ .inl
  | endWalk cancelled =>
    simp only [step] at hstep
    cases hwalk : state.walk with
    | none => simp [hwalk] at hstep
    | some walk =>
      simp only [hwalk] at hstep
      split_ifs at hstep
      cases hstep
      exact hsound.finishCheck hwalk cancelled
  | repairStart volume =>
    simp only [step] at hstep
    split_ifs at hstep
    cases hstep
    exact hsound.setRepair (by simp [RepairPhase.left])
  | takeReport => exact hsound.takeReport hcareful hstep
  | removeNext sticks =>
    simp only [step] at hstep
    split at hstep
    · rename_i paths finding left deletedHere hphase
      cases hstep
      exact hsound.removeEntry hphase sticks
    · cases hstep
  | nextWalk created => exact hsound.nextWalk hstep
  | poll => exact hsound.poll hcareful hstep
  | stopRepair =>
    simp only [step] at hstep
    split at hstep
    · cases hstep
    · cases hstep
      exact hsound.finishRepair

/-- A repair removes only what a walk of its volume has found, as long as walks can open the root, nothing is
put to the place of a finding, and reports of other volumes are left alone. -/
theorem repair_removes_only_found {contents : Bytes → Contents} {events : List Event} {state : State}
    (hrun : Run (fun state event state' ↦ Careful state event ∧ Step state event state')
      { contents } events state) : RemovesOnlyFound state := by
  have hstart : Sound { contents } := by
    refine ⟨?_, ?_, ?_, ?_, ?_⟩ <;> simp [State.findings, RepairPhase.left, RemovesOnlyFound]
  have hkeep (before : State) (event : Event) (after : State) (hsound : Sound before)
      (hstep : Careful before event ∧ Step before event after) : Sound after :=
    sound_step hstep.1 hsound hstep.2
  exact (hrun.preserves hkeep hstart).removals

def internal : Bytes := ascii "flash"

def damaged : Contents := (FileTree.empty.write [ascii "a"] 0).getD .empty

def damagedEvents : List Event :=
  [.checkStart internal true, .openDir true, .entry (ascii "a") .unstatable, .closeDir, .endWalk false,
    .repairStart internal]

theorem repair_removes_damaged : ∃ state : State,
    state.removals.map (fun removal ↦ removal.finding.path) = [[ascii "a"]] ∧
      (state.contents internal).find [ascii "a"] = none ∧ RemovesOnlyFound state := by
  have hreplay : ((steps step { contents := fun _ ↦ damaged } damagedEvents).any fun middle ↦
      middle.check.volume == middle.repair.volume && (step middle .takeReport).any fun taken ↦
        (steps step taken [.removeNext fun _ ↦ false]).any fun state ↦
          state.removals.map (fun removal ↦ removal.finding.path) == [[ascii "a"]] &&
            decide ((state.contents internal).find [ascii "a"] = none)) = true := by
    decide +kernel
  simp only [Option.any_eq_true, Bool.and_eq_true, beq_iff_eq, decide_eq_true_eq] at hreplay
  obtain ⟨middle, hfirst, hvolume, taken, htake, state, hremove, hpaths, hgone⟩ := hreplay
  have hwalk : ∀ event ∈ damagedEvents, ∀ state, Careful state event := by
    intro event hevent state
    simp only [damagedEvents, mem_cons, not_mem_nil, or_false] at hevent
    rcases hevent with rfl | rfl | rfl | rfl | rfl | rfl
    case inr.inl => exact fun hopens ↦ Bool.noConfusion hopens
    all_goals trivial
  have hlast : ∀ event ∈ [Event.removeNext fun _ ↦ false], ∀ state, Careful state event := by
    simp [Careful]
  have htaken : Careful middle .takeReport ∧ Step middle .takeReport taken := ⟨fun _ ↦ hvolume, htake⟩
  have hbatch := Run.cons htaken ((run_of_steps hremove).guarded hlast)
  exact ⟨state, hpaths, hgone,
    repair_removes_only_found (((run_of_steps hfirst).guarded hwalk).append hbatch)⟩

/-- The walk cannot open the root, and when the repair does so it can be opened again. -/
def sampleEvents : List Event :=
  [.put internal [ascii "a"], .checkStart internal true, .openDir false, .endWalk false,
    .repairStart internal, .takeReport, .removeNext fun _ ↦ false]

/-- The volume is emptied. -/
theorem repair_removes_root : ¬ ∀ (events : List Event) (state : State),
    Run Step {} events state → RemovesOnlyFound state := by
  intro hclaim
  have hreplay : ((steps step {} sampleEvents).any fun state ↦
      state.removals.any fun removal ↦ removal.finding.path.isEmpty) = true := by
    decide +kernel
  simp only [Option.any_eq_true, List.any_eq_true] at hreplay
  obtain ⟨state, hsteps, removal, hmem, hroot⟩ := hreplay
  have hjustified := hclaim sampleEvents state (run_of_steps hsteps) removal hmem
  exact hjustified.notRoot (by simpa using hroot)

end DhcpServer.Files.VolumeRepair
