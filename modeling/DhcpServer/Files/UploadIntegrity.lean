import DhcpServer.Files.Uploads
import Mathlib.Data.List.Nodup

/-!
# What a resumable upload publishes

The size of the part is read before the part is opened, and nothing keeps a second request for the same
path out in between: two requests that start the same part empty it for each other, and each of them
publishes whatever is there when its own body has ended. As long as no request is accepted next to
another one, a part is always the pieces its requests have sent, one after the other, and what a
resumable request publishes is the whole file.
-/

namespace DhcpServer.Files.Uploads

open Library List Function

section Contents

variable (requests : Nat → Request)

def Request.start (asked : Request) : Nat := if asked.total = 0 then 0 else asked.offset

/-- A content made of what opened requests have sent, each one at its place. -/
inductive Woven (opened : Nat → Prop) : Content → Prop
  | empty : Woven opened []
  | piece {before : Content} {request count : Nat} :
      Woven opened before → opened request → (requests request).start = before.length →
      count ≤ (requests request).body.length → Woven opened (before ++ marks request 0 count)

variable {requests}

@[simp] theorem length_marks (request sent count : Nat) : (marks request sent count).length = count := by
  simp [marks]

theorem marks_append (request sent count : Nat) :
    marks request 0 sent ++ marks request sent count = marks request 0 (sent + count) := by
  simp [marks, range_add, map_append, comp_def]

theorem mem_marks {request sent count : Nat} {mark : Option Mark} (hmark : mark ∈ marks request sent count) :
    ∃ index < count, mark = some ⟨request, sent + index⟩ := by
  obtain ⟨index, hindex, rfl⟩ := mem_map.mp hmark
  exact ⟨index, mem_range.mp hindex, rfl⟩

theorem nodup_marks (request sent count : Nat) : (marks request sent count).Nodup := by
  have hinjective : Function.Injective fun index ↦ some (⟨request, sent + index⟩ : Mark) := by
    intro first second hsame
    simpa using hsame
  exact nodup_range.map hinjective

variable {content : Content}

theorem Woven.mono {opened opened' : Nat → Prop} (hmore : ∀ request, opened request → opened' request)
    (hwoven : Woven requests opened content) : Woven requests opened' content := by
  induction hwoven with
  | empty => exact .empty
  | piece _ hopened hstart hcount ih => exact .piece ih (hmore _ hopened) hstart hcount

theorem Woven.index_lt {opened : Nat → Prop} (hwoven : Woven requests opened content)
    {mark : Option Mark} (hmark : mark ∈ content) :
    ∃ request index, mark = some ⟨request, index⟩ ∧ (requests request).start + index < content.length := by
  induction hwoven with
  | empty => simp at hmark
  | @piece before request count _ _ hstart _ ih =>
    rcases mem_append.mp hmark with hbefore | hlast
    · obtain ⟨sender, index, hsome, hlt⟩ := ih hbefore
      exact ⟨sender, index, hsome, by simpa using Nat.lt_add_right count hlt⟩
    · obtain ⟨index, hindex, hsome⟩ := mem_marks hlast
      exact ⟨request, 0 + index, hsome, by simpa [hstart] using hindex⟩

theorem Woven.nodup {opened : Nat → Prop} (hwoven : Woven requests opened content) : content.Nodup := by
  induction hwoven with
  | empty => exact nodup_nil
  | @piece before request count hbefore _ hstart _ ih =>
    refine List.Nodup.append ih (nodup_marks request 0 count) fun mark hmem hlast ↦ ?_
    obtain ⟨sender, index, hsome, hlt⟩ := hbefore.index_lt hmem
    obtain ⟨index', -, hsome'⟩ := mem_marks hlast
    obtain ⟨rfl, rfl⟩ : sender = request ∧ index = 0 + index' := by
      simpa using hsome.symm.trans hsome'
    omega

end Contents

section Integrity

variable (requests : Nat → Request)

def State.Opened (state : State) (request : Nat) : Prop := (state.phases request).opened = true

/-- A published file is the whole file: as long as its request has said, made of what opened requests
have sent, each piece at the offset it was accepted for, and with nothing that was written to it lost. -/
structure Whole (state : State) (entry : Published) : Prop where
  length : entry.content.length = (requests entry.request).total
  woven : Woven requests state.Opened entry.content
  nodup : entry.content.Nodup
  kept : entry.content = entry.written

/-- Every file a resumable request has published is whole. -/
def Intact (state : State) : Prop :=
  ∀ entry ∈ state.published, (requests entry.request).total ≠ 0 → Whole requests state entry

structure Fits (request : Nat) (range : UploadRange) : Prop where
  chunk : range.chunk = (requests request).body.length
  resumable : range.resumable = decide ((requests request).total ≠ 0)
  offset : range.offset = (requests request).start
  total : (requests request).total ≠ 0 → range.total = (requests request).total
  within : (requests request).total ≠ 0 → range.endOffset ≤ range.total

def PhaseSound (opened : Nat → Prop) (disk : Disk) (request : Nat) : Phase → Prop
  | .accepted range => Fits requests request range ∧ (0 < range.offset → disk.partSize = range.offset)
  | .writing range handle sent =>
    Fits requests request range ∧ (disk.part = some handle.file ∨ disk.part = none) ∧
      sent ≤ range.chunk ∧ handle.position = range.offset + sent ∧
      ∃ before, Woven requests opened before ∧ before.length = range.offset ∧
        disk.files handle.file = before ++ marks request 0 sent
  | .committing | .publishing =>
    ∀ file, disk.part = some file → (requests request).total ≠ 0 →
      (disk.files file).length = (requests request).total
  | _ => True

structure DiskSound (opened : Nat → Prop) (disk : Disk) : Prop where
  woven : ∀ file, Woven requests opened (disk.files file)
  kept : ∀ file, disk.files file = disk.written file
  small : ∀ file, (disk.files file).length < kFileLimit

structure Sound (state : State) : Prop where
  disk : DiskSound requests state.Opened state.disk
  phases : ∀ request, PhaseSound requests state.Opened state.disk request (state.phases request)
  sole : ∀ first second, (state.phases first).active → (state.phases second).active → first = second
  intact : Intact requests state

/-- No request is accepted next to one that is not finished, and a part is not discarded between the
reading of its size and its opening. -/
def Alone (state : State) : Event → Prop
  | .check request =>
    ∀ range, UploadRange.check state.disk.partSize (requests request).offset
      (requests request).body.length ((requests request).total ≠ 0) (requests request).total = .ok range →
      ∀ other, (state.phases other).active = false
  | .discard => ∀ request range, state.phases request = .accepted range → range.offset = 0
  | _ => True

variable {requests} {opened opened' : Nat → Prop} {state : State} {request : Nat}

variable {disk : Disk} {phase : Phase}

theorem PhaseSound.mono (hmore : ∀ request, opened request → opened' request)
    (hsound : PhaseSound requests opened disk request phase) :
    PhaseSound requests opened' disk request phase := by
  cases phase with
  | writing range handle sent =>
    obtain ⟨hfits, hpart, hsent, hposition, before, hwoven, hrest⟩ := hsound
    exact ⟨hfits, hpart, hsent, hposition, before, hwoven.mono hmore, hrest⟩
  | _ => exact hsound

theorem PhaseSound.of_inactive (hphase : phase.active = false) :
    PhaseSound requests opened disk request phase := by
  cases phase <;> trivial

theorem DiskSound.mono (hmore : ∀ request, opened request → opened' request)
    (hsound : DiskSound requests opened disk) : DiskSound requests opened' disk :=
  ⟨fun file ↦ (hsound.woven file).mono hmore, hsound.kept, hsound.small⟩

theorem DiskSound.rename (hsound : DiskSound requests opened disk) (part final : Option Nat) :
    DiskSound requests opened { disk with part, final } :=
  ⟨hsound.woven, hsound.kept, hsound.small⟩

theorem opened_setPhase (disk : Disk)
    (hopened : (state.phases request).opened → phase.opened) (other : Nat) (hother : state.Opened other) :
    ({ state with disk }.setPhase request phase).Opened other := by
  unfold State.Opened State.setPhase update at *
  dsimp only
  split_ifs with hsame
  · obtain rfl := hsame
    exact hopened hother
  · exact hother

section

variable (hsound : Sound requests state)
include hsound

theorem Sound.replace
    (hopened : (state.phases request).opened → phase.opened)
    (hdisk : DiskSound requests ({ state with disk }.setPhase request phase).Opened disk)
    (hphase : PhaseSound requests ({ state with disk }.setPhase request phase).Opened disk request phase)
    (hothers : ∀ other ≠ request, PhaseSound requests state.Opened disk other (state.phases other))
    (hsole : phase.active → ∀ other ≠ request, (state.phases other).active = false) :
    Sound requests ({ state with disk }.setPhase request phase) where
  disk := hdisk
  phases other := by
    by_cases hsame : other = request
    · subst hsame
      simpa [State.setPhase] using hphase
    · have hother := (hothers other hsame).mono (opened_setPhase disk hopened)
      simpa [State.setPhase, hsame] using hother
  sole first second hfirst hsecond := by
    by_cases hone : first = request <;> by_cases htwo : second = request
    · exact hone.trans htwo.symm
    · have hphase : phase.active := by simpa [State.setPhase, hone] using hfirst
      have hquiet := hsole hphase second htwo
      simp [State.setPhase, htwo, hquiet] at hsecond
    · have hphase : phase.active := by simpa [State.setPhase, htwo] using hsecond
      have hquiet := hsole hphase first hone
      simp [State.setPhase, hone, hquiet] at hfirst
    · have hfirst' : (state.phases first).active := by simpa [State.setPhase, hone] using hfirst
      have hsecond' : (state.phases second).active := by simpa [State.setPhase, htwo] using hsecond
      exact hsound.sole first second hfirst' hsecond'
  intact entry hentry htotal := by
    have hwhole := hsound.intact entry hentry htotal
    exact ⟨hwhole.length, hwhole.woven.mono (opened_setPhase disk hopened), hwhole.nodup, hwhole.kept⟩

theorem Sound.quiet (hactive : (state.phases request).active)
    (other : Nat) (hother : other ≠ request) : (state.phases other).active = false := by
  by_contra hloud
  exact hother (hsound.sole other request (by simpa using hloud) hactive)

theorem Sound.advance (hactive : (state.phases request).active)
    (hopened : (state.phases request).opened → phase.opened)
    (hdisk : DiskSound requests ({ state with disk }.setPhase request phase).Opened disk)
    (hphase : PhaseSound requests ({ state with disk }.setPhase request phase).Opened disk request phase) :
    Sound requests ({ state with disk }.setPhase request phase) := by
  have hquiet := hsound.quiet hactive
  exact hsound.replace hopened hdisk hphase (fun other hother ↦ .of_inactive (hquiet other hother))
    fun _ ↦ hquiet

theorem Sound.setPhase
    (hopened : (state.phases request).opened → phase.opened)
    (hphase : PhaseSound requests (state.setPhase request phase).Opened state.disk request phase)
    (hsole : phase.active → ∀ other ≠ request, (state.phases other).active = false) :
    Sound requests (state.setPhase request phase) := by
  have hmore := opened_setPhase state.disk hopened
  exact hsound.replace hopened (hsound.disk.mono hmore) hphase (fun other _ ↦ hsound.phases other) hsole

end

/-! ## The steps of a request -/

theorem DiskSound.update {disk disk' : Disk} (hsound : DiskSound requests opened disk) {file : Nat}
    {content : Content} (hwoven : Woven requests opened content) (hsmall : content.length < kFileLimit)
    (hfiles : disk'.files = update disk.files file content)
    (hwritten : disk'.written = update disk.written file content) :
    DiskSound requests opened disk' where
  woven other := by
    rw [hfiles, update_apply]
    split_ifs
    · exact hwoven
    · exact hsound.woven other
  kept other := by
    rw [hfiles, hwritten, update_apply, update_apply, hsound.kept other]
  small other := by
    rw [hfiles, update_apply]
    split_ifs
    · exact hsmall
    · exact hsound.small other

theorem write_at_end {handle : Handle} (bytes : Content)
    (hend : (disk.files handle.file).length = handle.position)
    (hkept : disk.files handle.file = disk.written handle.file) :
    (disk.write handle bytes).1.files =
        update disk.files handle.file (disk.files handle.file ++ bytes) ∧
      (disk.write handle bytes).1.written =
        update disk.written handle.file (disk.files handle.file ++ bytes) := by
  refine ⟨?_, ?_⟩
  · rw [Disk.write, ← hend, writeAt_length]
  · rw [Disk.write, hkept]

variable {range : UploadRange}

theorem Sound.take (hsound : Sound requests state) {handle : Handle}
    {sent count : Nat} (hphase : state.phases request = .writing range handle sent)
    (hchunk : sent + count ≤ range.chunk) (hlimit : handle.position + count < kFileLimit) :
    Sound requests (state.take request range handle sent count) := by
  have hmine := hsound.phases request
  rw [hphase] at hmine
  obtain ⟨hfits, hpart, hsent, hposition, before, hwoven, hbefore, hfile⟩ := hmine
  have hend : (state.disk.files handle.file).length = handle.position := by
    simp [hfile, hbefore, hposition]
  have hgrown : state.disk.files handle.file ++ marks request sent count =
      before ++ marks request 0 (sent + count) := by
    rw [hfile, append_assoc, marks_append]
  obtain ⟨hfiles, hwritten⟩ := write_at_end (marks request sent count) hend (hsound.disk.kept _)
  rw [hgrown] at hfiles hwritten
  have hopened : (state.phases request).opened → (Phase.writing range
      (state.disk.write handle (marks request sent count)).2 (sent + count)).opened := fun _ ↦ rfl
  have hmore := opened_setPhase (state.disk.write handle (marks request sent count)).1 hopened
  refine hsound.advance (by simp [hphase, Phase.active]) hopened ?_ ?_
  · refine (hsound.disk.mono hmore).update (.piece (hwoven.mono hmore) ?_ ?_ ?_) ?_ hfiles hwritten
    · simp [State.Opened, State.setPhase, Phase.opened]
    · rw [← hfits.offset, hbefore]
    · rw [← hfits.chunk]
      exact hchunk
    · simp only [length_append, length_marks]
      omega
  · refine ⟨hfits, hpart, hchunk, ?_, before, hwoven.mono hmore, hbefore, ?_⟩
    · simp [Disk.write, hposition, Nat.add_assoc]
    · rw [hfiles]
      simp [Disk.write]

theorem Sound.openPart (hsound : Sound requests state)
    (hphase : state.phases request = .accepted range) :
    Sound requests ({ state with disk := (state.disk.openPart (0 < range.offset)).1 }.setPhase request
      (.writing range (state.disk.openPart (0 < range.offset)).2 0)) := by
  have hmine := hsound.phases request
  rw [hphase] at hmine
  obtain ⟨hfits, hsize⟩ := hmine
  have hactive : (state.phases request).active := by simp [hphase, Phase.active]
  have hopened (handle : Handle) : (state.phases request).opened → (Phase.writing range handle 0).opened :=
    fun _ ↦ rfl
  have hmore (disk : Disk) (handle : Handle) := opened_setPhase disk (hopened handle)
  have hfresh (file : Nat) (disk : Disk) (hoffset : range.offset = 0) (hpart : disk.part = some file)
      (hfiles : disk.files = update state.disk.files file [])
      (hwritten : disk.written = update state.disk.written file []) :
      Sound requests ({ state with disk }.setPhase request (.writing range ⟨file, 0⟩ 0)) := by
    refine hsound.advance hactive (hopened _) ?_ ?_
    · exact (hsound.disk.mono (hmore _ _)).update .empty (by simp [kFileLimit]) hfiles hwritten
    · refine ⟨hfits, .inl hpart, Nat.zero_le _, by simp [hoffset], [], .empty, by simp [hoffset], ?_⟩
      simp [hfiles, marks]
  unfold Disk.openPart
  cases hpart : state.disk.part with
  | none =>
    have hoffset : range.offset = 0 := by
      by_contra hpositive
      have := hsize (Nat.pos_of_ne_zero hpositive)
      simp [Disk.partSize, hpart] at this
      omega
    exact hfresh state.disk.next _ hoffset rfl rfl rfl
  | some file =>
    by_cases hpositive : 0 < range.offset
    · have hlength : (state.disk.files file).length = range.offset := by
        simpa [Disk.partSize, hpart] using hsize hpositive
      simp only [hpositive, decide_true, ↓reduceIte]
      refine hsound.advance hactive (hopened _) (hsound.disk.mono (hmore _ _)) ?_
      refine ⟨hfits, .inl hpart, Nat.zero_le _, by simpa using hlength, state.disk.files file,
        (hsound.disk.woven file).mono (hmore _ _), hlength, by simp [marks]⟩
    · simp only [hpositive, decide_false, Bool.false_eq_true, ↓reduceIte]
      exact hfresh file _ (by omega) rfl rfl rfl

theorem Sound.complete (hsound : Sound requests state) {handle : Handle}
    (hphase : state.phases request = .writing range handle range.chunk) (hcompletes : range.completes)
    (file : Nat) (hpart : state.disk.part = some file) (htotal : (requests request).total ≠ 0) :
    (state.disk.files file).length = (requests request).total := by
  have hmine := hsound.phases request
  rw [hphase] at hmine
  obtain ⟨hfits, hhandle, -, hposition, before, hwoven, hbefore, hfile⟩ := hmine
  obtain rfl : handle.file = file := by
    rcases hhandle with hsome | hnone
    · exact Option.some.inj (hsome.symm.trans hpart)
    · simp [hnone] at hpart
  have hlength : (state.disk.files handle.file).length = range.offset + range.chunk := by
    rw [hfile, length_append, hbefore, length_marks]
  have hsmall := hsound.disk.small handle.file
  have hend : range.endOffset = range.offset + range.chunk := by
    unfold UploadRange.endOffset
    unfold kFileLimit at hsmall
    omega
  have hwithin := hfits.within htotal
  have htotal' := hfits.total htotal
  unfold UploadRange.completes at hcompletes
  have hatleast : range.total ≤ range.endOffset := by simpa using hcompletes
  omega

def State.entry (state : State) (request file : Nat) : Published :=
  ⟨request, state.disk.files file, state.disk.written file⟩

theorem Sound.enter (hsound : Sound requests state) {file : Nat}
    (hphase : state.phases request = .publishing) (hpart : state.disk.part = some file) :
    Sound requests { state with published := state.published ++ [state.entry request file] } := by
  have hmine := hsound.phases request
  rw [hphase] at hmine
  refine ⟨hsound.disk, hsound.phases, hsound.sole, fun entry hentry htotal ↦ ?_⟩
  rcases mem_append.mp hentry with hold | hnew
  · obtain ⟨hlength, hwoven, hnodup, hkept⟩ := hsound.intact entry hold htotal
    exact ⟨hlength, hwoven, hnodup, hkept⟩
  · obtain rfl := mem_singleton.mp hnew
    have hwoven := hsound.disk.woven file
    exact ⟨hmine file hpart htotal, hwoven, hwoven.nodup, hsound.disk.kept file⟩

theorem Sound.leave (hsound : Sound requests state) (hactive : (state.phases request).active)
    (hphase : phase = .done ∨ phase = .aborting) (part final : Option Nat) :
    Sound requests ({ state with disk := { state.disk with part, final } }.setPhase request phase) := by
  have hopened : (state.phases request).opened → phase.opened := by
    rcases hphase with rfl | rfl <;> exact fun _ ↦ rfl
  have hmore := opened_setPhase { state.disk with part, final } hopened
  refine hsound.advance hactive hopened ((hsound.disk.mono hmore).rename part final) ?_
  rcases hphase with rfl | rfl <;> trivial

theorem Sound.discard (hsound : Sound requests state)
    (halone : ∀ request range, state.phases request = .accepted range → range.offset = 0) :
    Sound requests { state with disk := { state.disk with part := none } } := by
  refine ⟨hsound.disk.rename none state.disk.final, fun request ↦ ?_, hsound.sole, ?_⟩
  · have hmine := hsound.phases request
    cases hphase : state.phases request with
    | accepted range =>
      rw [hphase] at hmine
      exact ⟨hmine.1, fun hpositive ↦ absurd (halone request range hphase) hpositive.ne'⟩
    | writing range handle sent =>
      rw [hphase] at hmine
      exact ⟨hmine.1, .inr rfl, hmine.2.2⟩
    | committing | publishing => exact fun file hpart ↦ by simp at hpart
    | _ => trivial
  · intro entry hentry htotal
    obtain ⟨hlength, hwoven, hnodup, hkept⟩ := hsound.intact entry hentry htotal
    exact ⟨hlength, hwoven, hnodup, hkept⟩

theorem fits_of_check (hcheck : UploadRange.check state.disk.partSize (requests request).offset
      (requests request).body.length ((requests request).total ≠ 0) (requests request).total = .ok range) :
    Fits requests request range ∧ (0 < range.offset → state.disk.partSize = range.offset) := by
  obtain ⟨hchunk, hresumable, hnone | htotal⟩ := UploadRange.check_eq_ok hcheck
  · obtain ⟨htotal, hoffset, -⟩ := hnone
    have hzero : (requests request).total = 0 := by simpa using htotal
    refine ⟨⟨hchunk, hresumable, by simp [hoffset, Request.start, hzero], ?_, ?_⟩, by omega⟩
    · exact fun hpositive ↦ absurd hzero hpositive
    · exact fun hpositive ↦ absurd hzero hpositive
  · obtain ⟨htotal, hoffset, hsize, htotal', hwithin⟩ := htotal
    have hpositive : (requests request).total ≠ 0 := by simpa using htotal
    refine ⟨⟨hchunk, hresumable, by simp [hoffset, Request.start, hpositive], fun _ ↦ htotal', ?_⟩, ?_⟩
    · exact fun _ ↦ htotal' ▸ hwithin
    · exact fun _ ↦ (hoffset.trans hsize).symm

theorem stopped_leaves (range : UploadRange) : stopped range = .done ∨ stopped range = .aborting := by
  unfold stopped
  split <;> simp

theorem sound_step {event : Event} {state' : State} (halone : Alone requests state event)
    (hsound : Sound requests state) (hstep : Step requests state event state') : Sound requests state' := by
  unfold Step step at hstep
  cases event with
  | check request =>
    dsimp only at hstep
    split at hstep
    case h_2 => cases hstep
    rename_i hphase
    split at hstep <;> cases hstep
    · exact hsound.setPhase (by simp [hphase, Phase.opened]) trivial (by simp [Phase.active])
    · rename_i range hcheck
      refine hsound.setPhase (by simp [hphase, Phase.opened]) (fits_of_check hcheck) fun _ other _ ↦ ?_
      exact halone range hcheck other
  | refuse request =>
    dsimp only at hstep
    split at hstep
    case h_2 => cases hstep
    rename_i range hphase
    cases hstep
    exact hsound.setPhase (by simp [hphase, Phase.opened]) trivial (by simp [Phase.active])
  | openPart request =>
    dsimp only at hstep
    split at hstep
    case h_2 => cases hstep
    rename_i range hphase
    cases hstep
    exact hsound.openPart hphase
  | receive request count =>
    dsimp only at hstep
    split at hstep
    case h_2 => cases hstep
    rename_i range handle sent hphase
    split at hstep
    case isFalse => cases hstep
    rename_i hroom
    cases hstep
    exact hsound.take hphase hroom.1 hroom.2
  | interrupt request count =>
    dsimp only at hstep
    split at hstep
    case h_2 => cases hstep
    rename_i range handle sent hphase
    split at hstep
    case isFalse => cases hstep
    rename_i hroom
    cases hstep
    have htaken := hsound.take hphase hroom.1 hroom.2
    have hactive : ((state.take request range handle sent count).phases request).active := by
      simp [State.take, State.setPhase, Phase.active]
    exact htaken.leave hactive (stopped_leaves range) _ _
  | cancel request =>
    dsimp only at hstep
    split at hstep
    case h_2 => cases hstep
    rename_i range handle sent hphase
    cases hstep
    exact hsound.leave (by simp [hphase, Phase.active]) (.inr rfl) _ _
  | finish request =>
    dsimp only at hstep
    split at hstep
    case h_2 => cases hstep
    rename_i range handle sent hphase
    split at hstep
    case isFalse => cases hstep
    rename_i hchunk
    cases hstep
    subst hchunk
    have hactive : (state.phases request).active := by simp [hphase, Phase.active]
    by_cases hcompletes : range.completes
    · rw [if_pos hcompletes]
      refine hsound.setPhase (fun _ ↦ rfl) ?_ fun _ ↦ hsound.quiet hactive
      exact hsound.complete hphase hcompletes
    · rw [if_neg hcompletes]
      exact hsound.leave hactive (stopped_leaves range) _ _
  | flushFails request =>
    dsimp only at hstep
    split at hstep
    case h_2 => cases hstep
    rename_i hphase
    cases hstep
    exact hsound.leave (by simp [hphase, Phase.active]) (.inr rfl) _ _
  | abort request fails =>
    dsimp only at hstep
    split at hstep
    case h_2 => cases hstep
    rename_i hphase
    cases hstep
    have hactive : (state.phases request).active := by simp [hphase, Phase.active]
    cases fails with
    | true => exact hsound.leave hactive (.inl rfl) _ _
    | false => exact hsound.leave hactive (.inl rfl) none _
  | removeFinal request fails =>
    dsimp only at hstep
    split at hstep
    case h_2 => cases hstep
    rename_i hphase
    cases hstep
    have hactive : (state.phases request).active := by simp [hphase, Phase.active]
    have hmine := hsound.phases request
    rw [hphase] at hmine
    have hopened : (state.phases request).opened → Phase.publishing.opened := fun _ ↦ rfl
    cases fails with
    | true => exact hsound.setPhase hopened hmine fun _ ↦ hsound.quiet hactive
    | false =>
      have hdisk := hsound.disk.mono (opened_setPhase { state.disk with final := none } hopened)
      exact hsound.advance hactive hopened (hdisk.rename state.disk.part none) hmine
  | publish request fails =>
    dsimp only at hstep
    split at hstep
    case h_2 => cases hstep
    rename_i hphase
    have hactive : (state.phases request).active := by simp [hphase, Phase.active]
    split at hstep
    · rename_i file hpart _
      split at hstep <;> cases hstep
      · exact hsound.leave hactive (.inr rfl) _ _
      · exact (hsound.enter hphase hpart).leave hactive (.inl rfl) none (some file)
    · cases hstep
      exact hsound.leave hactive (.inr rfl) _ _
  | discard =>
    cases hstep
    exact hsound.discard halone

theorem sound_start : Sound requests {} where
  disk := ⟨fun _ ↦ .empty, fun _ ↦ rfl, fun _ ↦ by simp [kFileLimit]⟩
  phases _ := trivial
  sole first _ hfirst := by simp [Phase.active] at hfirst
  intact entry hentry := by simp at hentry

end Integrity

/-- The second request empties the part the first one is about to publish. -/
def sampleOverlap : List Event :=
  [.check 0, .check 1, .openPart 0, .receive 0 1, .openPart 1, .finish 0, .removeFinal 0 false,
    .publish 0 false]

end DhcpServer.Files.Uploads
