import Mathlib.Data.Finset.Card

/-!
# Open addressing with linear probing

A table of `size` places. A key is looked for from its home place on, one place after the other and
around the end, until the key or a free place is met. The table is sound if every key in it is found
in this way; putting a key into the free place its search ends at keeps it sound.
-/

namespace DhcpServer.Library.ProbeTable

open Function

inductive Found
  | here
  | free (place : Nat)
  | nowhere

variable {Key : Type*}

def probe [DecidableEq Key] (size : Nat) (table : Nat → Option Key) (key : Key) :
    (probes place : Nat) → Found
  | 0, _ => .nowhere
  | probes + 1, place =>
    match table place with
    | none => .free place
    | some other => if other = key then .here else probe size table key probes ((place + 1) % size)

/-- The first places from `home` on hold other keys. -/
def Passed (size : Nat) (table : Nat → Option Key) (home : Nat) (key : Key) (distance : Nat) : Prop :=
  ∀ before < distance, ∃ other, table ((home + before) % size) = some other ∧ other ≠ key

def Holds (size : Nat) (table : Nat → Option Key) (key : Key) : Prop :=
  ∃ place < size, table place = some key

def Sound (size : Nat) (home : Key → Nat) (table : Nat → Option Key) : Prop :=
  ∀ place < size, ∀ key, table place = some key →
    ∃ distance < size, place = (home key + distance) % size ∧ Passed size table (home key) key distance

section Probe

variable {size home start distance : Nat} {table : Nat → Option Key} {key : Key}

theorem passed_zero : Passed size table home key 0 := fun _ hbefore ↦ absurd hbefore (Nat.not_lt_zero _)

theorem Passed.succ {other : Key} (hpassed : Passed size table home key start)
    (hother : table ((home + start) % size) = some other) (hne : other ≠ key) :
    Passed size table home key (start + 1) := by
  intro before hbefore
  rcases Nat.lt_succ_iff_lt_or_eq.mp hbefore with hlt | rfl
  · exact hpassed before hlt
  · exact ⟨other, hother, hne⟩

theorem Passed.le {other : Nat} (hpassed : Passed size table home key distance)
    (hkey : table ((home + other) % size) = some key) : distance ≤ other := by
  by_contra hlt
  obtain ⟨found, hfound, hne⟩ := hpassed other (Nat.lt_of_not_le hlt)
  exact hne (Option.some.inj (hfound.symm.trans hkey))

theorem Passed.update (hpassed : Passed size table home key distance) {place : Nat}
    (hfree : table place = none) (entry : Option Key) :
    Passed size (update table place entry) home key distance := by
  intro before hbefore
  obtain ⟨other, hother, hne⟩ := hpassed before hbefore
  have hplace : (home + before) % size ≠ place := by
    rintro rfl
    exact absurd (hfree.symm.trans hother) (by simp)
  exact ⟨other, (update_of_ne hplace _ _).trans hother, hne⟩

variable [DecidableEq Key]

theorem probe_spec (probes : Nat) (hpassed : Passed size table home key start) :
    match probe size table key probes ((home + start) % size) with
    | .here => ∃ distance < start + probes, table ((home + distance) % size) = some key
    | .free place => ∃ distance < start + probes, place = (home + distance) % size ∧
        table place = none ∧ Passed size table home key distance
    | .nowhere => Passed size table home key (start + probes) := by
  induction probes generalizing start with
  | zero => exact hpassed
  | succ probes ih =>
    rw [probe]
    cases hplace : table ((home + start) % size) with
    | none => exact ⟨start, by omega, rfl, hplace, hpassed⟩
    | some other =>
      by_cases hother : other = key
      · rw [hother] at hplace
        simpa only [if_pos hother] using ⟨start, by omega, hplace⟩
      · have hnext : ((home + start) % size + 1) % size = (home + (start + 1)) % size :=
          Nat.mod_add_mod _ _ _
        have hcount : start + 1 + probes = start + (probes + 1) := by omega
        have hrest := ih (hpassed.succ hplace hother)
        rw [hcount] at hrest
        simpa only [if_neg hother, hnext] using hrest

theorem probe_home (size home : Nat) (table : Nat → Option Key) (key : Key) :
    match probe size table key size (home % size) with
    | .here => ∃ distance < size, table ((home + distance) % size) = some key
    | .free place => ∃ distance < size, place = (home + distance) % size ∧
        table place = none ∧ Passed size table home key distance
    | .nowhere => Passed size table home key size := by
  have hpassed : Passed size table home key 0 := passed_zero
  have hspec := probe_spec size hpassed
  rwa [Nat.zero_add, Nat.add_zero] at hspec

end Probe

section Sound

variable {size place : Nat} {home : Key → Nat} {table : Nat → Option Key} {key : Key}

theorem exists_distance (home : Nat) (hplace : place < size) :
    ∃ distance < size, (home + distance) % size = place := by
  have hsize : 0 < size := Nat.zero_lt_of_lt hplace
  have hhome : home % size < size := Nat.mod_lt home hsize
  by_cases hle : home % size ≤ place
  · refine ⟨place - home % size, by omega, ?_⟩
    rw [← Nat.mod_add_mod, Nat.add_sub_cancel' hle, Nat.mod_eq_of_lt hplace]
  · refine ⟨place + size - home % size, by omega, ?_⟩
    rw [← Nat.mod_add_mod, Nat.add_sub_cancel' (by omega), Nat.add_mod_right, Nat.mod_eq_of_lt hplace]

theorem sound_empty (size : Nat) (home : Key → Nat) : Sound size home fun _ ↦ none :=
  fun _ _ _ hkey ↦ nomatch hkey

theorem Sound.unique (hsound : Sound size home table) {first second : Nat} (hfirst : first < size)
    (hsecond : second < size) (hkey : table first = some key) (hkey' : table second = some key) :
    first = second := by
  obtain ⟨distance, -, hplace, hpassed⟩ := hsound first hfirst key hkey
  obtain ⟨distance', -, hplace', hpassed'⟩ := hsound second hsecond key hkey'
  have hle : distance ≤ distance' := hpassed.le (hplace' ▸ hkey')
  have hge : distance' ≤ distance := hpassed'.le (hplace ▸ hkey)
  rw [hplace, hplace', le_antisymm hle hge]

variable [DecidableEq Key]

theorem Sound.probe_eq_here_iff (hsound : Sound size home table) (key : Key) :
    probe size table key size (home key % size) = .here ↔ Holds size table key := by
  have hhome := probe_home size (home key) table key
  constructor
  · intro hhere
    rw [hhere] at hhome
    obtain ⟨distance, hdistance, hkey⟩ := hhome
    exact ⟨_, Nat.mod_lt _ (Nat.zero_lt_of_lt hdistance), hkey⟩
  · rintro ⟨place, hplace, hkey⟩
    obtain ⟨distance, hdistance, rfl, hpassed⟩ := hsound place hplace key hkey
    cases hprobe : probe size table key size (home key % size) with
    | here => rfl
    | free found =>
      rw [hprobe] at hhome
      obtain ⟨distance', -, rfl, hfree, hpassed'⟩ := hhome
      rcases (hpassed'.le hkey).eq_or_lt with rfl | hlt
      · exact absurd (hfree.symm.trans hkey) (by simp)
      · obtain ⟨other, hother, -⟩ := hpassed distance' hlt
        exact absurd (hfree.symm.trans hother) (by simp)
    | nowhere =>
      rw [hprobe] at hhome
      exact absurd (hhome.le hkey) (Nat.not_le_of_lt hdistance)

theorem Sound.probe_ne_nowhere (hsound : Sound size home table) {keys : List Key}
    (hkeys : ∀ key, Holds size table key → key ∈ keys) (hroom : keys.length < size) (key : Key) :
    probe size table key size (home key % size) ≠ .nowhere := by
  intro hprobe
  have hhome := probe_home size (home key) table key
  rw [hprobe] at hhome
  have hfull (place : Nat) (hplace : place < size) : ∃ other ∈ keys, table place = some other := by
    obtain ⟨distance, hdistance, hreach⟩ := exists_distance (home key) hplace
    obtain ⟨other, hother, -⟩ := hhome distance hdistance
    rw [hreach] at hother
    exact ⟨other, hkeys other ⟨place, hplace, hother⟩, hother⟩
  have hcard : (keys.map some).toFinset.card < (Finset.range size).card := by
    calc (keys.map some).toFinset.card ≤ (keys.map some).length := List.toFinset_card_le _
      _ = keys.length := List.length_map _
      _ < size := hroom
      _ = (Finset.range size).card := (Finset.card_range size).symm
  have hmaps : ∀ place ∈ Finset.range size, table place ∈ (keys.map some).toFinset := by
    intro place hplace
    obtain ⟨other, hother, hentry⟩ := hfull place (Finset.mem_range.mp hplace)
    rw [List.mem_toFinset, hentry]
    exact List.mem_map_of_mem hother
  obtain ⟨first, hfirst, second, hsecond, hne, hsame⟩ :=
    Finset.exists_ne_map_eq_of_card_lt_of_maps_to hcard hmaps
  obtain ⟨other, -, hother⟩ := hfull first (Finset.mem_range.mp hfirst)
  exact hne (hsound.unique (Finset.mem_range.mp hfirst) (Finset.mem_range.mp hsecond) hother
    (hsame ▸ hother))

theorem Sound.insert (hsound : Sound size home table)
    (hprobe : probe size table key size (home key % size) = .free place) :
    Sound size home (update table place (some key)) := by
  have hhome := probe_home size (home key) table key
  rw [hprobe] at hhome
  obtain ⟨distance, hdistance, hplace, hfree, hpassed⟩ := hhome
  intro other hother entry hentry
  by_cases hsame : other = place
  · rw [hsame, update_self] at hentry
    cases hentry
    exact ⟨distance, hdistance, hsame.trans hplace, hpassed.update hfree _⟩
  · rw [update_of_ne hsame] at hentry
    obtain ⟨distance', hdistance', hplace', hpassed'⟩ := hsound other hother entry hentry
    exact ⟨distance', hdistance', hplace', hpassed'.update hfree _⟩

theorem holds_insert (hprobe : probe size table key size (home key % size) = .free place) (other : Key) :
    Holds size (update table place (some key)) other ↔ other = key ∨ Holds size table other := by
  have hhome := probe_home size (home key) table key
  rw [hprobe] at hhome
  obtain ⟨distance, hdistance, hplace, hfree, -⟩ := hhome
  constructor
  · rintro ⟨found, hfound, hentry⟩
    by_cases hsame : found = place
    · rw [hsame, update_self] at hentry
      exact .inl (Option.some.inj hentry).symm
    · rw [update_of_ne hsame] at hentry
      exact .inr ⟨found, hfound, hentry⟩
  · rintro (rfl | ⟨found, hfound, hentry⟩)
    · have hlt : place < size := by
        rw [hplace]
        exact Nat.mod_lt _ (Nat.zero_lt_of_lt hdistance)
      exact ⟨place, hlt, update_self _ _ _⟩
    · have hne : found ≠ place := by
        rintro rfl
        exact absurd (hfree.symm.trans hentry) (by simp)
      exact ⟨found, hfound, (update_of_ne hne _ _).trans hentry⟩

end Sound

end DhcpServer.Library.ProbeTable
