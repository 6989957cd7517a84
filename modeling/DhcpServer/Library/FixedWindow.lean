import Mathlib.Data.List.Chain
import Mathlib.Data.List.TakeWhile

/-!
# Limiters with fixed windows

A limiter admits so many requests of a window and no more; the first request that comes a full width after
the start of the window starts the next one. What it admits are the first requests of every window. They
keep to the limit in every interval of this width exactly when each of them is a full width younger than
the one so many places before it, and only a window and the one behind it can break that.
-/

namespace DhcpServer.Library

open List

structure Window where
  start : Nat
  count : Nat

namespace FixedWindow

/-- What a request makes of the window, and whether it is admitted. -/
def request (limit width : Nat) : Option Window → Nat → Window × Bool
  | none, now => (⟨now, 1⟩, true)
  | some window, now =>
    let window := if window.start + width ≤ now then ⟨now, 0⟩ else window
    if limit ≤ window.count then (window, false) else (⟨window.start, window.count + 1⟩, true)

def answers (limit width : Nat) : Option Window → List Nat → List (Nat × Bool)
  | _, [] => []
  | window, now :: times =>
    let next := request limit width window now
    (now, next.2) :: answers limit width (some next.1) times

def admitted (answers : List (Nat × Bool)) : List Nat := (answers.filter (·.2)).map (·.1)

def windows (width : Nat) : List Nat → List (List Nat)
  | [] => []
  | first :: times =>
    (first :: times.takeWhile (· < first + width)) :: windows width (times.dropWhile (· < first + width))
termination_by times => times.length
decreasing_by exact Nat.lt_succ_of_le (length_dropWhile_le _ _)

def KeepsLimit (limit width : Nat) (times : List Nat) : Prop :=
  ∀ first, (times.filter fun time ↦ first ≤ time ∧ time < first + width).length ≤ limit

/-- Every element is a full width behind the one so many places before it. -/
def FarApart (limit width : Nat) (times : List Nat) : Prop :=
  ∀ place early late, times[place]? = some early → times[place + limit]? = some late → early + width ≤ late

/-- The first requests of a window and of the next one are far apart. -/
def Smooth (limit width : Nat) (window next : List Nat) : Prop :=
  FarApart limit width (window.take limit ++ next.take limit)

variable {limit width now bound : Nat} {times front behind rest : List Nat} {window : Option Window}

theorem exists_lt_of_length_filter (hsorted : times.Pairwise (· ≤ ·))
    (hmany : limit < (times.filter (· < bound)).length) :
    ∃ late, times[limit]? = some late ∧ late < bound := by
  induction times generalizing limit with
  | nil => simp at hmany
  | cons first times ih =>
    obtain ⟨hfirst, hsorted⟩ := pairwise_cons.mp hsorted
    by_cases hbelow : first < bound
    · rw [filter_cons_of_pos (by simpa using hbelow), length_cons] at hmany
      cases limit with
      | zero => exact ⟨first, rfl, hbelow⟩
      | succ limit => exact ih hsorted (Nat.lt_of_succ_lt_succ hmany)
    · have hnone : times.filter (· < bound) = [] := by
        rw [filter_eq_nil_iff]
        intro time htime
        have hle := hfirst time htime
        simp only [decide_eq_true_eq]
        omega
      rw [filter_cons_of_neg (by simpa using hbelow), hnone] at hmany
      simp at hmany

theorem KeepsLimit.of_sublist {fewer : List Nat} (hsub : fewer.Sublist times)
    (hkeeps : KeepsLimit limit width times) : KeepsLimit limit width fewer :=
  fun first ↦ (hsub.filter _).length_le.trans (hkeeps first)

theorem FarApart.tail {first : Nat} (hfar : FarApart limit width (first :: times)) :
    FarApart limit width times := by
  intro place early late hearly hlate
  refine hfar (place + 1) early late hearly ?_
  rw [Nat.add_right_comm, getElem?_cons_succ]
  exact hlate

/-- The first element of an ordered list that keeps to the limit is far from the one so many places on. -/
theorem KeepsLimit.head_far {first late : Nat} (hsorted : (first :: times).Pairwise (· ≤ ·))
    (hkeeps : KeepsLimit limit width (first :: times)) (hlate : (first :: times)[limit]? = some late) :
    first + width ≤ late := by
  by_contra hclose
  obtain ⟨hplace, hlast⟩ := List.getElem?_eq_some_iff.mp hlate
  have htake : (first :: times).take (limit + 1) = (first :: times).take limit ++ [late] := by
    rw [take_add_one, hlate]
    rfl
  have hordered := hsorted
  rw [← take_append_drop limit (first :: times), pairwise_append] at hordered
  have hmem : late ∈ (first :: times).drop limit :=
    mem_of_getElem? (i := 0) (by rwa [getElem?_drop, Nat.add_zero])
  -- all of them up to the late one are in one interval
  have hall : ∀ time ∈ (first :: times).take (limit + 1), first ≤ time ∧ time < first + width := by
    intro time htime
    have hfirst : first ≤ time := by
      rcases mem_cons.mp (mem_of_mem_take htime) with rfl | hrest
      · exact le_rfl
      · exact rel_of_pairwise_cons hsorted hrest
    have hbelow : time ≤ late := by
      rw [htake] at htime
      rcases mem_append.mp htime with hbefore | hsame
      · exact hordered.2.2 time hbefore late hmem
      · exact (mem_singleton.mp hsame).le
    exact ⟨hfirst, by omega⟩
  have hcount := (hkeeps.of_sublist (take_sublist (limit + 1) _)) first
  rw [filter_eq_self.mpr fun time htime ↦ by simpa using hall time htime, htake, length_append,
    length_take_of_le hplace.le] at hcount
  exact Nat.not_succ_le_self limit hcount

/-- The limit is kept in every interval exactly when nothing is too close to what is so many places
before it. -/
theorem keepsLimit_iff_farApart (hsorted : times.Pairwise (· ≤ ·)) :
    KeepsLimit limit width times ↔ FarApart limit width times := by
  induction times with
  | nil => exact iff_of_true (fun _ ↦ Nat.zero_le _) (fun _ _ _ hearly ↦ by cases hearly)
  | cons first times ih =>
    have hrest := hsorted.of_cons
    constructor
    · intro hkeeps place early late hearly hlate
      cases place with
      | zero =>
        cases hearly
        rw [Nat.zero_add] at hlate
        exact hkeeps.head_far hsorted hlate
      | succ place =>
        rw [Nat.add_right_comm] at hlate
        exact (ih hrest).mp (hkeeps.of_sublist (sublist_cons_self _ _)) place early late hearly hlate
    · intro hfar start
      by_cases hin : start ≤ first ∧ first < start + width
      · by_contra hmany
        have hbelow : limit < ((first :: times).filter (· < start + width)).length := by
          refine (not_le.mp hmany).trans_le (List.Sublist.length_le (monotone_filter_right _ ?_))
          intro time htime
          simp only [decide_eq_true_eq] at htime ⊢
          exact htime.2
        obtain ⟨late, hlate, hlt⟩ := exists_lt_of_length_filter hsorted hbelow
        have hapart := hfar 0 first late rfl (by rwa [Nat.zero_add])
        omega
      · rw [filter_cons_of_neg (by simpa using hin)]
        exact (ih hrest).mpr hfar.tail start

/-- Of two lists, the elements of the first are far from those so many places on. -/
def FarAcross (limit width : Nat) (front behind : List Nat) : Prop :=
  ∀ place early late, front[place]? = some early → behind[place + limit - front.length]? = some late →
    early + width ≤ late

theorem farApart_of_length_le (hshort : front.length ≤ limit) : FarApart limit width front := by
  intro place early late _ hlate
  rw [getElem?_eq_none (by omega)] at hlate
  cases hlate

theorem farApart_append_iff (hshort : front.length ≤ limit) : FarApart limit width (front ++ behind) ↔
      FarAcross limit width front behind ∧ FarApart limit width behind := by
  constructor
  · intro hfar
    refine ⟨fun place early late hearly hlate ↦ ?_, fun place early late hearly hlate ↦ ?_⟩
    · refine hfar place early late ?_ ?_
      · rwa [getElem?_append_left (List.getElem?_eq_some_iff.mp hearly).1]
      · rwa [getElem?_append_right (by omega)]
    · refine hfar (front.length + place) early late ?_ ?_
      · rwa [getElem?_append_right (Nat.le_add_right _ _), Nat.add_sub_cancel_left]
      · rwa [getElem?_append_right (by omega), Nat.add_assoc, Nat.add_sub_cancel_left]
  · rintro ⟨hacross, hfar⟩ place early late hearly hlate
    rw [getElem?_append_right (by omega)] at hlate
    rcases Nat.lt_or_ge place front.length with hfront | hbehind
    · rw [getElem?_append_left hfront] at hearly
      exact hacross place early late hearly hlate
    · rw [getElem?_append_right hbehind] at hearly
      refine hfar (place - front.length) early late hearly ?_
      rwa [← Nat.sub_add_comm hbehind]

theorem farAcross_append_iff (hapart : ∀ early ∈ front, ∀ late ∈ rest, early + width ≤ late) :
    FarAcross limit width front (behind ++ rest) ↔ FarAcross limit width front behind := by
  constructor
  · intro hacross place early late hearly hlate
    refine hacross place early late hearly ?_
    rwa [getElem?_append_left (List.getElem?_eq_some_iff.mp hlate).1]
  · intro hacross place early late hearly hlate
    rcases Nat.lt_or_ge (place + limit - front.length) behind.length with hnear | hrest
    · rw [getElem?_append_left hnear] at hlate
      exact hacross place early late hearly hlate
    · rw [getElem?_append_right hrest] at hlate
      exact hapart early (mem_of_getElem? hearly) late (mem_of_getElem? hlate)

theorem smooth_iff {next : List Nat} :
    Smooth limit width front next ↔ FarAcross limit width (front.take limit) (next.take limit) := by
  rw [Smooth, farApart_append_iff (length_take_le _ _)]
  exact and_iff_left (farApart_of_length_le (length_take_le _ _))

theorem flatten_windows (width : Nat) (times : List Nat) : (windows width times).flatten = times := by
  fun_induction windows width times with
  | case1 => rfl
  | case2 first times ih =>
    rw [flatten_cons, ih, cons_append, takeWhile_append_dropWhile]

theorem lt_of_mem_window {first time : Nat} (hwidth : 0 < width)
    (htime : time ∈ first :: times.takeWhile (· < first + width)) : time < first + width := by
  rcases mem_cons.mp htime with rfl | hrest
  · omega
  · simpa using mem_takeWhile_imp hrest

theorem le_of_mem_dropWhile {first : Nat} (hsorted : times.Pairwise (· ≤ ·)) :
    ∀ time ∈ times.dropWhile (· < first + width), first + width ≤ time := by
  intro time htime
  rcases hrest : times.dropWhile (· < first + width) with _ | ⟨next, later⟩
  · rw [hrest] at htime
    cases htime
  · have hnext := head?_dropWhile_not (· < first + width) times
    have hordered := hsorted.sublist (dropWhile_sublist (· < first + width))
    rw [hrest] at htime hnext hordered
    simp only [head?_cons, decide_eq_false_iff_not] at hnext
    rcases mem_cons.mp htime with rfl | hlater
    · omega
    · have hle := rel_of_pairwise_cons hordered hlater
      omega

/-- The first requests of all windows are far apart when those of each window and the next one are. -/
theorem farApart_windows_iff (hwidth : 0 < width) (hsorted : times.Pairwise (· ≤ ·)) :
    FarApart limit width ((windows width times).flatMap (·.take limit)) ↔
      (windows width times).IsChain (Smooth limit width) := by
  fun_induction windows width times with
  | case1 => exact iff_of_true (farApart_of_length_le (Nat.zero_le _)) .nil
  | case2 first times ih =>
    have hlater := hsorted.of_cons.sublist (dropWhile_sublist (· < first + width))
    have hnext : ∀ time ∈ times.dropWhile (· < first + width), first + width ≤ time :=
      le_of_mem_dropWhile hsorted.of_cons
    replace ih := ih hlater
    rw [flatMap_cons]
    rcases hrest : times.dropWhile (· < first + width) with _ | ⟨next, later⟩
    · rw [windows, flatMap_nil, append_nil]
      exact iff_of_true (farApart_of_length_le (length_take_le _ _)) (.singleton _)
    · rw [hrest] at ih hnext hlater
      rw [windows, flatMap_cons] at ih
      -- the window after the next one is far from this one
      have hapart : ∀ early ∈ (first :: times.takeWhile (· < first + width)).take limit,
          ∀ late ∈ (windows width (later.dropWhile (· < next + width))).flatMap (·.take limit),
            early + width ≤ late := by
        intro early hearly late hlate
        obtain ⟨window, hwindow, hlate⟩ := mem_flatMap.mp hlate
        have hmem : late ∈ later.dropWhile (· < next + width) := by
          rw [← flatten_windows width (later.dropWhile _)]
          exact mem_flatten.mpr ⟨window, hwindow, mem_of_mem_take hlate⟩
        have hbelow := lt_of_mem_window hwidth (mem_of_mem_take hearly)
        have hstart := hnext next mem_cons_self
        have hlate := le_of_mem_dropWhile hlater.of_cons late hmem
        omega
      rw [windows, flatMap_cons, farApart_append_iff (length_take_le _ _),
        farAcross_append_iff hapart, ← smooth_iff, ih, isChain_cons_cons]

theorem admitted_cons (now : Nat) (isAdmitted : Bool) (answers : List (Nat × Bool)) :
    admitted ((now, isAdmitted) :: answers) =
      if isAdmitted then now :: admitted answers else admitted answers := by
  cases isAdmitted <;> rfl

theorem request_of_lt {window : Window} (hinside : now < window.start + width) :
    request limit width (some window) now =
      if limit ≤ window.count then (window, false) else (⟨window.start, window.count + 1⟩, true) := by
  rw [request, if_neg (not_le.mpr hinside)]

theorem request_of_le {window : Window} (hlimit : 0 < limit) (hlater : window.start + width ≤ now) :
    request limit width (some window) now = request limit width none now := by
  simp only [request, if_pos hlater]
  exact if_neg (not_le.mpr hlimit)

theorem admitted_answers_some (hlimit : 0 < limit) (window : Window) (times : List Nat) :
    admitted (answers limit width (some window) times) =
      (times.takeWhile (· < window.start + width)).take (limit - window.count) ++
        admitted (answers limit width none (times.dropWhile (· < window.start + width))) := by
  induction times generalizing window with
  | nil => simp [answers, admitted]
  | cons now times ih =>
    rw [answers, admitted_cons]
    by_cases hinside : now < window.start + width
    · rw [request_of_lt hinside, takeWhile_cons_of_pos (by simpa using hinside),
        dropWhile_cons_of_pos (by simpa using hinside)]
      by_cases hfull : limit ≤ window.count
      · rw [if_pos hfull, if_neg Bool.false_ne_true, ih window, Nat.sub_eq_zero_of_le hfull, take_zero,
          take_zero]
      · have hroom : limit - window.count = limit - (window.count + 1) + 1 := by omega
        rw [if_neg hfull, if_pos rfl, ih, hroom, take_succ_cons, cons_append]
    · rw [request_of_le hlimit (not_lt.mp hinside), takeWhile_cons_of_neg (by simpa using hinside),
        dropWhile_cons_of_neg (by simpa using hinside), take_nil, nil_append, answers,
        admitted_cons]

theorem admitted_answers (hlimit : 0 < limit) (times : List Nat) :
    admitted (answers limit width none times) = (windows width times).flatMap (·.take limit) := by
  fun_induction windows width times with
  | case1 => rfl
  | case2 first times ih =>
    have hroom : limit = limit - 1 + 1 := (Nat.sub_add_cancel hlimit).symm
    rw [answers, request, admitted_cons, if_pos rfl, admitted_answers_some hlimit, ih, flatMap_cons]
    rw [hroom, take_succ_cons, Nat.add_sub_cancel]
    rfl

theorem map_fst_answers (limit width : Nat) (window : Option Window) (times : List Nat) :
    (answers limit width window times).map (·.1) = times := by
  induction times generalizing window with
  | nil => rfl
  | cons now times ih => rw [answers, map_cons, ih]

theorem admitted_sublist (limit width : Nat) (window : Option Window) (times : List Nat) :
    (admitted (answers limit width window times)).Sublist times := by
  have hsub := (filter_sublist (p := (·.2)) (l := answers limit width window times)).map (·.1)
  rwa [map_fst_answers] at hsub

/-- The limit is kept in every interval exactly when no window is followed too closely by the next one. -/
theorem keepsLimit_admitted_iff (hlimit : 0 < limit) (hwidth : 0 < width) (hsorted : times.Pairwise (· ≤ ·)) :
    KeepsLimit limit width (admitted (answers limit width none times)) ↔
      (windows width times).IsChain (Smooth limit width) := by
  have hadmitted := hsorted.sublist (admitted_sublist limit width none times)
  rw [keepsLimit_iff_farApart hadmitted, admitted_answers hlimit, farApart_windows_iff hwidth hsorted]

theorem KeepsLimit.length_window {window : List Nat} (hwidth : 0 < width) (hsorted : times.Pairwise (· ≤ ·))
    (hkeeps : KeepsLimit limit width times) (hwindow : window ∈ windows width times) :
    window.length ≤ limit := by
  fun_induction windows width times with
  | case1 => cases hwindow
  | case2 first times ih =>
    rcases mem_cons.mp hwindow with rfl | hlater
    · have hsub : (first :: times.takeWhile (· < first + width)).Sublist (first :: times) :=
        (takeWhile_sublist _).cons_cons first
      have hcount := hkeeps.of_sublist hsub first
      rw [filter_eq_self.mpr ?_] at hcount
      · exact hcount
      · intro time htime
        have hfirst : first ≤ time := by
          rcases mem_cons.mp (hsub.subset htime) with rfl | hrest
          · exact le_rfl
          · exact rel_of_pairwise_cons hsorted hrest
        simpa using ⟨hfirst, lt_of_mem_window hwidth htime⟩
    · have hdropped : (times.dropWhile (· < first + width)).Sublist (first :: times) :=
        (dropWhile_sublist _).trans (sublist_cons_self _ _)
      exact ih (hsorted.sublist hdropped) (hkeeps.of_sublist hdropped) hlater

theorem KeepsLimit.admitted (hlimit : 0 < limit) (hwidth : 0 < width) (hsorted : times.Pairwise (· ≤ ·))
    (hkeeps : KeepsLimit limit width times) : ∀ answer ∈ answers limit width none times, answer.2 := by
  have hall : FixedWindow.admitted (answers limit width none times) = times := by
    have htake : (windows width times).flatMap (·.take limit) = (windows width times).flatten := by
      rw [flatMap_congr fun window hwindow ↦
        take_of_length_le (hkeeps.length_window hwidth hsorted hwindow), flatMap_id']
    rw [admitted_answers hlimit, htake, flatten_windows]
  have hlength := congrArg List.length hall
  rw [FixedWindow.admitted, length_map, ← congrArg List.length (map_fst_answers limit width none times),
    length_map] at hlength
  exact length_filter_eq_length_iff.mp hlength

end FixedWindow

end DhcpServer.Library
