import DhcpServer.Library.Run
import DhcpServer.Web.DnsSettings

/-!
# Changes of the DNS settings at the same time

Whoever changes one DNS setting reads all keys, one after the other, and writes all of them back; a
post writes all keys without reading any. Nothing holds a lock over that. `want` is what the settings
should be: each key as the last operation that was meant to change it left it.
-/

namespace DhcpServer.Dns.SettingsRace

open Library DhcpServer.Core DhcpServer.Core.DnsConfig Web.DnsSettings List Option Function

/-! ## Operations -/

inductive Change
  | storeCacheFileMd5 (md5 : Bytes)
  /-- The handler `applyCacheAutosave` sets. -/
  | disableCacheAutosave
  /-- The handler `applyStatsAutosave` sets. -/
  | disableStatsAutosave

namespace Change

def key : Change → Key
  | storeCacheFileMd5 _ => .cacheInternalFileMd5
  | disableCacheAutosave => .cacheInternalAutosave
  | disableStatsAutosave => .statsAutosave

def value : Change → Value
  | storeCacheFileMd5 md5 => .str md5
  | disableCacheAutosave | disableStatsAutosave => flagValue false

/-- `storeCacheFileMd5` has nothing to do when the checksum is the stored one. -/
def needless (change : Change) (cfg : DnsConfig) : Bool :=
  match change with
  | storeCacheFileMd5 md5 => cfg .cacheInternalFileMd5 = .str md5
  | disableCacheAutosave | disableStatsAutosave => false

end Change

/-- An operation on its way, with the keys it has still to read or to write. -/
inductive Task
  | reading (change : Change) (left : List Key) (cfg : DnsConfig)
  | writing (meant : Key → Bool) (left : List Key) (cfg : DnsConfig)

structure State where
  nvs : Nvs
  tasks : List Task
  want : DnsConfig

inductive Event
  | start (change : Change)
  /-- `handlePostDnsSettings` comes to its `setDns`. -/
  | post (body : Bytes)
  /-- The next read or write of an operation. -/
  | advance (task : Nat)

def Change.applied (change : Change) (cfg : DnsConfig) : DnsConfig := update cfg change.key change.value

def step (state : State) : Event → Option State
  | .start change =>
    some { state with tasks := state.tasks ++ [.reading change Key.all fresh] }
  | .post body =>
    if body.isEmpty then some state
    else some { state with tasks := state.tasks ++ [.writing (meantBy body) Key.all (posted body)] }
  | .advance index =>
    match state.tasks[index]? with
    | none => none
    | some (.reading change (key :: left) cfg) =>
      let cfg := update cfg key (readKey state.nvs cfg key)
      some { state with tasks := state.tasks.set index (.reading change left cfg) }
    | some (.reading change [] cfg) =>
      if change.needless cfg then
        some { state with
          tasks := state.tasks.eraseIdx index
          want := update state.want change.key change.value.stored }
      else
        let task := .writing (fun key ↦ key = change.key) Key.all (change.applied cfg)
        some { state with tasks := state.tasks.set index task }
    | some (.writing meant (key :: left) cfg) =>
      some
        { nvs := writeKey state.nvs cfg key
          tasks := state.tasks.set index (.writing meant left cfg)
          want := if meant key then update state.want key (cfg key).stored
            else state.want }
    | some (.writing _ [] _) => some { state with tasks := state.tasks.eraseIdx index }

def Step (state : State) (event : Event) (state' : State) : Prop := step state event = some state'

/-- Whatever is stored when the device is switched on is what somebody wanted. -/
def start (nvs : Nvs) : State := ⟨nvs, [], getDns nvs⟩

/-- The claim on one state: with no operation on its way every setting is as it was last set. -/
def State.Holds (state : State) : Prop := state.tasks = [] → getDns state.nvs = state.want

/-- A post finds the checksum and the settings it should keep at their defaults, and a write that
changes what is stored happens while no other operation is on its way. -/
def Careful (state : State) : Event → Prop
  | .start _ => True
  | .post body => ∀ key, meantBy body key = false → getDns state.nvs key = fresh key
  | .advance index =>
    match state.tasks[index]? with
    | some (.writing _ (key :: _) cfg) =>
      state.nvs key = some (cfg key).stored ∨ state.tasks.length = 1
    | _ => True

def CarefulStep (state : State) (event : Event) (state' : State) : Prop :=
  Careful state event ∧ Step state event state'

/-! ## One operation -/

/-- What is known of an operation that has still to write `left`. -/
structure Writes (nvs : Nvs) (meant : Key → Bool) (left : List Key) (cfg : DnsConfig) : Prop where
  valid : Valid cfg
  /-- What it is not meant to change it writes back. -/
  kept : ∀ key, meant key = false → (cfg key).stored = getDns nvs key
  /-- An interval that is kept under a unit that is not is one. -/
  ones : ∀ key unit, key.unit? = some unit → meant unit = true → meant key = false → cfg key = .int 1
  done : ∃ done, Key.all = done ++ left ∧ ∀ key ∈ done, nvs key = some (cfg key).stored

variable {nvs : Nvs} {meant : Key → Bool} {key : Key} {left : List Key} {cfg : DnsConfig}

section

variable (hwrites : Writes nvs meant (key :: left) cfg)
include hwrites

theorem Writes.getDns_self :
    getDns (writeKey nvs cfg key) key = (cfg key).stored := by
  obtain ⟨done, hsplit, hdone⟩ := hwrites.done
  apply getDns_of_written hwrites.valid
  · exact update_self _ _ _
  · intro unit hunit
    have hne : unit ≠ key := by
      rintro rfl
      simp [unit_unit hunit] at hunit
    rw [writeKey, update_of_ne hne]
    exact hdone unit (Key.unit_before hsplit hunit)

theorem Writes.getDns_other {other : Key}
    (hne : other ≠ key) :
    getDns (writeKey nvs cfg key) other = getDns nvs other ∨ meant other ∧ other ∈ left := by
  by_cases hunit : other.unit? = some key
  · cases hmeant : meant key with
    | false =>
      left
      rw [writeKey, hwrites.kept key hmeant, getDns_update_self]
    | true =>
      cases hother : meant other with
      | false =>
        left
        have hone : getDns nvs other = .int 1 := by
          rw [← hwrites.kept other hother, hwrites.ones other key hunit hmeant hother]
          rfl
        rw [hone]
        exact getDns_update_unit hunit hone _
      | true =>
        right
        obtain ⟨done, hsplit, -⟩ := hwrites.done
        refine ⟨rfl, ?_⟩
        have hmem := Key.mem_all other
        rw [hsplit, mem_append, mem_cons] at hmem
        rcases hmem with hearly | hsame | hlate
        · -- the unit would come before the interval and after it
          obtain ⟨before, after, rfl⟩ := append_of_mem hearly
          have hbefore : key ∈ before := by
            apply Key.unit_before _ hunit
            · exact after ++ key :: left
            · rw [hsplit, append_assoc, cons_append]
          have hnodup := Key.nodup_all
          rw [hsplit] at hnodup
          have hdisjoint := disjoint_of_nodup_append hnodup
          exact (hdisjoint (mem_append_left _ hbefore) mem_cons_self).elim
        · exact (hne hsame).elim
        · exact hlate
  · exact .inl (getDns_update_of_ne hne hunit _)

theorem Writes.next :
    Writes (writeKey nvs cfg key) meant left cfg := by
  refine ⟨hwrites.valid, ?_, hwrites.ones, ?_⟩
  · intro other hmeant
    by_cases hother : other = key
    · rw [hother, hwrites.getDns_self]
    · rcases hwrites.getDns_other hother with hsame | ⟨hchanged, -⟩
      · rw [hsame, hwrites.kept other hmeant]
      · simp [hmeant] at hchanged
  · obtain ⟨done, hsplit, hdone⟩ := hwrites.done
    refine ⟨done ++ [key], by simp [hsplit], ?_⟩
    intro other hother
    by_cases hkey : other = key
    · subst hkey
      exact update_self _ _ _
    · rw [writeKey, update_of_ne hkey]
      apply hdone other
      simpa [hkey] using hother

end

theorem writes_posted {body : Bytes}
    (hdefaults : ∀ key, meantBy body key = false → getDns nvs key = fresh key) :
    Writes nvs (meantBy body) Key.all (posted body) := by
  have hstored (key : Key) : (fresh key).stored = fresh key := by
    rw [← getDns_empty, stored_getDns]
  refine ⟨valid_posted body, ?_, ?_, [], rfl, by simp⟩
  · intro key hmeant
    rw [posted_of_not_meant hmeant, hstored, hdefaults key hmeant]
  · intro key unit hunit _ hmeant
    rw [posted_of_not_meant hmeant]
    cases key <;> cases hunit <;> rfl

theorem Change.key_not_unit (change : Change) (key : Key) : key.unit? ≠ some change.key := by
  intro hunit
  obtain ⟨default, hkind⟩ := unit_kind hunit
  cases change <;> cases hkind

theorem writes_applied (nvs : Nvs) (change : Change) :
    Writes nvs (fun key ↦ key = change.key) Key.all (change.applied (getDns nvs)) := by
  refine ⟨?_, ?_, ?_, [], rfl, by simp⟩
  · intro key
    have hvalid := valid_getDns nvs key
    by_cases hkey : key = change.key
    · subst hkey
      rw [ValidAt]
      cases change <;> exact ⟨_, update_self _ _ _⟩
    · have hsame : change.applied (getDns nvs) key = getDns nvs key :=
        update_of_ne hkey _ _
      rw [ValidAt] at hvalid ⊢
      cases hkind : key.kind with
      | flag | text | logFileSize | cacheSizeMb | period | batch | pause =>
        simpa only [hkind, hsame] using hvalid
      | autosaveInterval unit | autoUpdateInterval unit =>
        have hmem : key.unit? = some unit := by rw [Key.unit?, hkind]
        have hunit : unit ≠ change.key := by
          rintro rfl
          exact change.key_not_unit key hmem
        have hother : change.applied (getDns nvs) unit = getDns nvs unit := update_of_ne hunit _ _
        simpa only [hkind, hsame, hother] using hvalid
  · intro key hmeant
    have hkey : key ≠ change.key := by simpa using hmeant
    rw [Change.applied, update_of_ne hkey, stored_getDns]
  · intro key unit hunit hmeant _
    obtain rfl : unit = change.key := by simpa using hmeant
    exact (change.key_not_unit key hunit).elim

/-- What is known of an operation that has still to read `left`. -/
def Reads (nvs : Nvs) (left : List Key) (cfg : DnsConfig) : Prop :=
  ∃ done, Key.all = done ++ left ∧ ∀ key ∈ done, cfg key = getDns nvs key

theorem Reads.next (hreads : Reads nvs (key :: left) cfg) :
    Reads nvs left (update cfg key (readKey nvs cfg key)) := by
  obtain ⟨done, hsplit, hdone⟩ := hreads
  refine ⟨done ++ [key], by simp [hsplit], ?_⟩
  intro other hother
  by_cases hkey : other = key
  · subst hkey
    rw [update_self]
    apply readKey_congr rfl
    intro unit hunit
    rw [hdone unit (Key.unit_before hsplit hunit)]
    exact readKey_unit hunit nvs _ _
  · rw [update_of_ne hkey]
    apply hdone other
    simpa [hkey] using hother

theorem Reads.eq_getDns (hreads : Reads nvs [] cfg) : cfg = getDns nvs := by
  obtain ⟨done, hsplit, hdone⟩ := hreads
  funext key
  apply hdone key
  rw [append_nil] at hsplit
  exact hsplit ▸ Key.mem_all key

theorem Change.value_of_needless {change : Change} (hneedless : change.needless cfg) :
    cfg change.key = change.value := by
  cases change with
  | storeCacheFileMd5 md5 => exact of_decide_eq_true hneedless
  | disableCacheAutosave | disableStatsAutosave => simp [Change.needless] at hneedless

/-! ## All of them -/

def Task.Sound (nvs : Nvs) : Task → Prop
  | .reading _ left cfg => Reads nvs left cfg
  | .writing meant left cfg => Writes nvs meant left cfg

def Pending (tasks : List Task) (key : Key) : Prop :=
  ∃ meant left cfg, Task.writing meant left cfg ∈ tasks ∧ meant key = true ∧ key ∈ left

structure State.Sound (state : State) : Prop where
  tasks : ∀ task ∈ state.tasks, task.Sound state.nvs
  want : ∀ key, getDns state.nvs key = state.want key ∨ Pending state.tasks key

theorem State.Sound.holds {state : State} (hsound : state.Sound) : state.Holds := by
  intro hidle
  funext key
  rcases hsound.want key with hsame | ⟨_, _, _, hmem, -⟩
  · exact hsame
  · simp [hidle] at hmem

variable {tasks : List Task} {index : Nat} {task : Task}

theorem Pending.set {other : Key} (hpending : Pending tasks other) (next : Task)
    (hcurrent : ∀ meant left cfg, tasks[index]? = some (.writing meant left cfg) →
      meant other → other ∈ left →
      ∃ left', next = .writing meant left' cfg ∧ other ∈ left') :
    Pending (tasks.set index next) other := by
  obtain ⟨meant, left, cfg, hmem, hmeant, hleft⟩ := hpending
  obtain ⟨place, hplace⟩ := mem_iff_getElem?.mp hmem
  by_cases hindex : index = place
  · subst hindex
    obtain ⟨left', rfl, hleft'⟩ := hcurrent meant left cfg hplace hmeant hleft
    have hlength : index < tasks.length := (List.getElem?_eq_some_iff.mp hplace).1
    exact ⟨meant, left', cfg, mem_set hlength _, hmeant, hleft'⟩
  · refine ⟨meant, left, cfg, mem_iff_getElem?.mpr ⟨place, ?_⟩, hmeant, hleft⟩
    rw [getElem?_set_ne hindex, hplace]

theorem Pending.eraseIdx {other : Key} (hpending : Pending tasks other)
    (hcurrent : ∀ meant left cfg, tasks[index]? = some (.writing meant left cfg) → left = []) :
    Pending (tasks.eraseIdx index) other := by
  obtain ⟨meant, left, cfg, hmem, hmeant, hleft⟩ := hpending
  obtain ⟨place, hplace⟩ := mem_iff_getElem?.mp hmem
  have hindex : place ≠ index := by
    rintro rfl
    rw [hcurrent meant left cfg hplace] at hleft
    simp at hleft
  exact ⟨meant, left, cfg, mem_eraseIdx_iff_getElem?.mpr ⟨place, hindex, hplace⟩, hmeant, hleft⟩

theorem sound_set {next : Task} (htasks : ∀ task ∈ tasks, task.Sound nvs) (hnext : next.Sound nvs) :
    ∀ task ∈ tasks.set index next, task.Sound nvs := by
  intro task htask
  rcases mem_or_eq_of_mem_set htask with hmem | rfl
  · exact htasks task hmem
  · exact hnext

theorem State.Sound.write {state : State} (hsound : state.Sound)
    (htask : state.tasks[index]? = some (.writing meant (key :: left) cfg))
    (hcareful : state.nvs key = some (cfg key).stored ∨ state.tasks.length = 1) :
    State.Sound
      { nvs := writeKey state.nvs cfg key
        tasks := state.tasks.set index (.writing meant left cfg)
        want := if meant key then update state.want key (cfg key).stored
          else state.want } := by
  have hwrites : Writes state.nvs meant (key :: left) cfg := hsound.tasks _ (mem_of_getElem? htask)
  constructor
  · rcases hcareful with hsame | hlone
    · have hunchanged : writeKey state.nvs cfg key = state.nvs := by
        rw [writeKey, ← hsame, update_eq_self]
      have hnext := hwrites.next
      rw [hunchanged] at hnext ⊢
      exact sound_set hsound.tasks hnext
    · obtain ⟨only, honly⟩ := length_eq_one_iff.mp hlone
      rw [honly] at htask ⊢
      cases index with
      | zero =>
        intro task hmem
        obtain rfl := mem_singleton.mp hmem
        exact hwrites.next
      | succ index => simp at htask
  · intro other
    have hlength : index < state.tasks.length := (List.getElem?_eq_some_iff.mp htask).1
    have hcurrent (hstays : meant other = true → other ≠ key) :
        ∀ meant' left' cfg', state.tasks[index]? = some (.writing meant' left' cfg') →
          meant' other = true → other ∈ left' →
          ∃ left'', Task.writing meant left cfg = .writing meant' left'' cfg' ∧ other ∈ left'' := by
      intro meant' left' cfg' htask' hmeant hleft
      obtain ⟨rfl, rfl, rfl⟩ := Task.writing.inj (mem_unique htask htask')
      refine ⟨left, rfl, ?_⟩
      exact (mem_cons.mp hleft).resolve_left (hstays hmeant)
    by_cases hother : other = key
    · subst hother
      rw [hwrites.getDns_self]
      cases hmeant : meant other with
      | true => simp
      | false =>
        rcases hsound.want other with hsame | hpending
        · left
          simpa [hwrites.kept other hmeant] using hsame
        · exact .inr (hpending.set _ (hcurrent (by simp [hmeant])))
    · have hwant : (if meant key = true then update state.want key (cfg key).stored
          else state.want) other = state.want other := by
        split_ifs
        · exact update_of_ne hother _ _
        · rfl
      rcases hwrites.getDns_other hother with hsame | ⟨hmeant, hleft⟩
      · dsimp only
        rw [hsame, hwant]
        rcases hsound.want other with hequal | hpending
        · exact .inl hequal
        · exact .inr (hpending.set _ (hcurrent fun _ ↦ hother))
      · exact .inr ⟨meant, left, cfg, mem_set hlength _, hmeant, hleft⟩

theorem State.Sound.step {state state' : State} {event : Event} (hsound : state.Sound)
    (hstep : CarefulStep state event state') : state'.Sound := by
  obtain ⟨hcareful, hstep⟩ := hstep
  have happended {next : Task} (hnext : next.Sound state.nvs) :
      State.Sound { state with tasks := state.tasks ++ [next] } := by
    constructor
    · intro task htask
      rcases mem_append.mp htask with hmem | hmem
      · exact hsound.tasks task hmem
      · rwa [mem_singleton.mp hmem]
    · intro key
      rcases hsound.want key with hsame | ⟨meant, left, cfg, hmem, hpending⟩
      · exact .inl hsame
      · exact .inr ⟨meant, left, cfg, mem_append_left _ hmem, hpending⟩
  cases event with
  | start change =>
    cases hstep
    exact happended ⟨[], rfl, by simp⟩
  | post body =>
    rw [Step, SettingsRace.step] at hstep
    split_ifs at hstep with hempty
    · cases hstep
      exact hsound
    · cases hstep
      exact happended (writes_posted hcareful)
  | advance index =>
    rw [Step, SettingsRace.step] at hstep
    rw [Careful] at hcareful
    cases htask : state.tasks[index]? with
    | none => simp [htask] at hstep
    | some task =>
      have htaskSound := hsound.tasks task (mem_of_getElem? htask)
      cases task with
      | reading change left cfg =>
        have hreading (next : Task) {key : Key} (hpending : Pending state.tasks key) :
            Pending (state.tasks.set index next) key := by
          apply hpending.set
          intro meant left cfg hwriting
          cases mem_unique htask hwriting
        cases left with
        | cons key left =>
          simp only [htask] at hstep
          cases hstep
          exact ⟨sound_set hsound.tasks htaskSound.next, fun key ↦ (hsound.want key).imp_right (hreading _)⟩
        | nil =>
          obtain rfl : cfg = getDns state.nvs := htaskSound.eq_getDns
          simp only [htask] at hstep
          split_ifs at hstep with hneedless
          · cases hstep
            refine ⟨fun task hmem ↦ hsound.tasks task (mem_of_mem_eraseIdx hmem), fun key ↦ ?_⟩
            by_cases hkey : key = change.key
            · subst hkey
              left
              dsimp only
              rw [update_self, ← change.value_of_needless hneedless, stored_getDns]
            · dsimp only
              rw [update_of_ne hkey]
              apply (hsound.want key).imp_right
              intro hpending
              apply hpending.eraseIdx
              intro meant left cfg hwriting
              cases mem_unique htask hwriting
          · cases hstep
            exact ⟨sound_set hsound.tasks (writes_applied state.nvs change),
              fun key ↦ (hsound.want key).imp_right (hreading _)⟩
      | writing meant left cfg =>
        cases left with
        | cons key left =>
          simp only [htask] at hstep hcareful
          cases hstep
          exact hsound.write htask hcareful
        | nil =>
          simp only [htask] at hstep
          cases hstep
          refine ⟨fun task hmem ↦ hsound.tasks task (mem_of_mem_eraseIdx hmem), fun key ↦ ?_⟩
          apply (hsound.want key).imp_right
          intro hpending
          apply hpending.eraseIdx
          intro meant' left' cfg' hwriting
          cases mem_unique htask hwriting
          rfl

def sampleEvents : List Event := .post [0x7B, 0x7D] :: List.replicate 42 (.advance 0)

end DhcpServer.Dns.SettingsRace
