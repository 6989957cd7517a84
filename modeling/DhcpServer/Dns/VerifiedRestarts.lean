import DhcpServer.Dns.RestartSaves

/-!
# What a restart finds when it has waited

One job runs at a time, and it looks for a request once. In an undisturbed run the job that a restart
waits for looks after the request was left, or has taken an earlier one, so that it ends checked or
not well.
-/

namespace DhcpServer.Dns.RestartSaves

open Library List

/-! ## One job at a time -/

structure Flight (state : State) where
  fresh : ∀ start ∈ state.parties, (∀ answer, start.caller ≠ .returned answer) → start.task = .absent
  busy : ∀ start ∈ state.parties, start.Active → state.shared.persistBusy = true ∧
    state.shared.persistSave = start.purpose.save ∧ state.shared.persistResult = .none
  single : ∀ (place other : Nat) (first second : Start), state.parties[place]? = some first →
    state.parties[other]? = some second → first.Active → second.Active → place = other

section Move

variable {state : State} {start : Start} {number : Nat} {move : Move}

variable {shared : Shared}

@[simp]
theorem purpose_apply : (move.apply shared start).2.purpose = start.purpose := by
  cases move with
  | create created => cases created <;> rfl
  | checkBusy | accept | observe =>
    rw [Move.apply]
    split_ifs <;> rfl
  | work | finish =>
    rw [Move.apply]
    split <;> rfl
  | giveUp | request | look => rfl

@[simp]
theorem number_apply : (move.apply shared start).2.number = start.number := by
  cases move with
  | create created => cases created <;> rfl
  | checkBusy | accept | observe =>
    rw [Move.apply]
    split_ifs <;> rfl
  | work | finish =>
    rw [Move.apply]
    split <;> rfl
  | giveUp | request | look => rfl

/-- What a step does to the job and to the state of the job that everybody sees. -/
inductive Effect (shared : Shared) (start : Start) (move : Move) : Shared × Start → Prop
  /-- the job is active if it was, and nobody sees a difference -/
  | same {moved : Shared × Start} (hactive : moved.2.Active → start.Active)
      (hbusy : moved.1.persistBusy = shared.persistBusy)
      (hsave : moved.1.persistSave = shared.persistSave)
      (hresult : moved.1.persistResult = shared.persistResult)
      (hchecked : moved.1.persistChecked = shared.persistChecked) : Effect shared start move moved
  | accepted {moved : Shared × Start} (hmove : move = .accept) (hfree : shared.persistBusy = false)
      (hbusy : moved.1.persistBusy = true) (hsave : moved.1.persistSave = start.purpose.save)
      (hresult : moved.1.persistResult = .none) : Effect shared start move moved
  | closed {moved : Shared × Start} (hactive : start.Active) (hover : ¬moved.2.Active)
      (hverdict : shared.persistResult = .none → start.willVerify shared.persistVerifyOwed = true →
        moved.1.persistResult = .ok → moved.1.persistChecked = true) : Effect shared start move moved

theorem effect_apply (shared : Shared) (henabled : move.Enabled start)
    (hfresh : (∀ answer, start.caller ≠ .returned answer) → start.task = .absent) :
    Effect shared start move (move.apply shared start) := by
  cases move with
  | giveUp answer => exact .same (fun h ↦ .inr (h.resolve_left (by simp [Move.apply]))) rfl rfl rfl rfl
  | request => exact .same (fun h ↦ .inr (h.resolve_left (by simp [Move.apply]))) rfl rfl rfl rfl
  | checkBusy =>
    rw [Move.apply]
    split_ifs with hbusy
    · exact .same (fun h ↦ .inr (h.resolve_left (by simp))) rfl rfl rfl rfl
    · exact .same (fun h ↦ .inr (h.resolve_left (by simp))) rfl rfl rfl rfl
  | accept =>
    rw [Move.apply]
    split_ifs with hbusy
    · exact .same (fun h ↦ .inr (h.resolve_left (by simp))) rfl rfl rfl rfl
    · exact .accepted rfl (by simpa using hbusy) rfl rfl rfl
  | create created =>
    have hcaller : start.caller = .accepted := henabled
    cases created with
    | true => exact .same (fun _ ↦ .inl hcaller) rfl rfl rfl rfl
    | false =>
      have habsent : start.task = .absent := hfresh (by simp [hcaller])
      refine .closed (.inl hcaller) (by simp [Move.apply, Start.Active, habsent, Task.isActive]) ?_
      intro hnone _ hok
      exact absurd (hnone.symm.trans hok) (by simp)
  | look =>
    have htask : start.task = .created := henabled
    exact .same (fun _ ↦ .inr (by rw [htask]; rfl)) rfl rfl rfl rfl
  | work result =>
    rw [Move.apply]
    split
    case h_1 save verify htask => exact .same (fun _ ↦ .inr (by rw [htask]; rfl)) rfl rfl rfl rfl
    case h_2 => exact .same id rfl rfl rfl rfl
  | finish =>
    have hreturned : start.caller ≠ .accepted := by
      intro hcaller
      rw [Move.Enabled, hfresh (by simp [hcaller])] at henabled
      cases henabled
    rw [Move.apply]
    split
    case h_1 result verified htask =>
      refine .closed (.inr (by rw [htask]; rfl)) (by simp [Start.Active, hreturned, Task.isActive]) ?_
      rintro - hverify rfl
      rw [Start.willVerify, htask] at hverify
      exact hverify
    case h_2 hother =>
      cases htask : start.task with
      | ended result verified => exact absurd htask (hother result verified)
      | absent | created | running | gone =>
        rw [Move.Enabled, htask] at henabled
        cases henabled
  | observe =>
    rw [Move.apply]
    split_ifs with hbusy
    · exact .same id rfl rfl rfl rfl
    · exact .same id rfl rfl rfl rfl

theorem fresh_apply (henabled : move.Enabled start)
    (hfresh : (∀ answer, start.caller ≠ .returned answer) → start.task = .absent)
    (hcaller : ∀ answer, (move.apply shared start).2.caller ≠ .returned answer) :
    (move.apply shared start).2.task = .absent := by
  cases move with
  | giveUp answer => exact absurd rfl (hcaller answer)
  | request =>
    have hentered : start.caller = .entered := henabled
    exact hfresh (by simp [hentered])
  | checkBusy =>
    have hrequested : start.caller = .requested := henabled
    rw [Move.apply]
    split_ifs <;> exact hfresh (by simp [hrequested])
  | accept =>
    have hstarting : start.caller = .starting := henabled
    rw [Move.apply]
    split_ifs <;> exact hfresh (by simp [hstarting])
  | create created => cases created <;> exact absurd rfl (hcaller _)
  | look =>
    have htask : start.task = .created := henabled
    exact absurd (htask.symm.trans (hfresh hcaller)) (by simp)
  | work result =>
    rw [Move.apply] at hcaller ⊢
    split at hcaller
    case h_1 save verify htask => exact absurd (htask.symm.trans (hfresh hcaller)) (by simp)
    case h_2 => exact hfresh hcaller
  | finish =>
    rw [Move.apply] at hcaller ⊢
    split at hcaller
    case h_1 result verified htask => exact absurd (htask.symm.trans (hfresh hcaller)) (by simp)
    case h_2 => exact hfresh hcaller
  | observe =>
    rw [Move.apply] at hcaller ⊢
    split_ifs at hcaller ⊢ <;> exact hfresh hcaller

section

variable (hflight : Flight state)
include hflight

/-- The job that is active is the one that takes the step, or another one before and after it. -/
theorem Flight.active_cases (hstart : state.parties[number]? = some start)
    {moved : Shared × Start} {place : Nat} {job : Start}
    (hjob : (state.replace number moved).parties[place]? = some job) (hactive : job.Active) :
    place = number ∧ job = moved.2 ∨
      state.parties[place]? = some job ∧ job ∈ state.parties ∧ ¬start.Active := by
  rcases Parties.getElem?_replace hstart hjob with hself | ⟨hne, hold⟩
  · exact .inl hself
  · refine .inr ⟨hold, mem_of_getElem? hold, fun hstartActive ↦ hne ?_⟩
    exact hflight.single place number job start hold hstart hactive hstartActive

theorem Flight.alone {moved : Shared × Start}
    (heffect : Effect state.shared start move moved) (hself : moved.2.Active) {job : Start}
    (hjob : job ∈ state.parties) (hactive : job.Active) : start.Active := by
  cases heffect with
  | same hback => exact hback hself
  | accepted _ hfree => exact absurd (hflight.busy job hjob hactive).1 (by simp [hfree])
  | closed hstart => exact hstart

theorem Flight.moved (hstart : state.parties[number]? = some start)
    (henabled : move.Enabled start) :
    Flight (state.replace number (move.apply state.shared start)) := by
  have hmem : start ∈ state.parties := mem_of_getElem? hstart
  have hfresh := hflight.fresh start hmem
  have heffect := effect_apply state.shared henabled hfresh
  constructor
  · exact Parties.forall_mem_replace hflight.fresh (fresh_apply henabled hfresh)
  · intro job hjob hactive
    obtain ⟨place, hplace⟩ := mem_iff_getElem?.mp hjob
    rcases hflight.active_cases hstart hplace hactive with ⟨rfl, rfl⟩ | ⟨-, hold, hidle⟩
    · rw [purpose_apply]
      cases heffect with
      | same hback hbusy hsave hresult hchecked =>
        obtain ⟨hwas, hwasSave, hwasResult⟩ := hflight.busy start hmem (hback hactive)
        exact ⟨hbusy.trans hwas, hsave.trans hwasSave, hresult.trans hwasResult⟩
      | accepted _ hfree hbusy hsave hresult => exact ⟨hbusy, hsave, hresult⟩
      | closed hstartActive hover => exact absurd hactive hover
    · obtain ⟨hwas, hwasSave, hwasResult⟩ := hflight.busy job hold hactive
      cases heffect with
      | same hback hbusy hsave hresult hchecked =>
        exact ⟨hbusy.trans hwas, hsave.trans hwasSave, hresult.trans hwasResult⟩
      | accepted _ hfree => exact absurd hwas (by simp [hfree])
      | closed hstartActive => exact absurd hstartActive hidle
  · intro place other first second hfirst hsecond hfirstActive hsecondActive
    rcases hflight.active_cases hstart hfirst hfirstActive with
      ⟨rfl, rfl⟩ | ⟨hold, hmemFirst, hidle⟩ <;>
    rcases hflight.active_cases hstart hsecond hsecondActive with
      ⟨rfl, rfl⟩ | ⟨holdSecond, hmemSecond, hidleSecond⟩
    · rfl
    · exact absurd (hflight.alone heffect hfirstActive hmemSecond hsecondActive) hidleSecond
    · exact absurd (hflight.alone heffect hsecondActive hmemFirst hfirstActive) hidle
    · exact hflight.single place other first second hold holdSecond hfirstActive hsecondActive

theorem Flight.join (purpose : Purpose) : Flight (state.join state.shared
      { number := state.parties.length, purpose := purpose, caller := purpose.first }) := by
  have hidle : ¬Start.Active
      { number := state.parties.length, purpose := purpose, caller := purpose.first } := by
    cases purpose <;> simp [Start.Active, Purpose.first, Task.isActive]
  constructor
  · exact Parties.forall_mem_join hflight.fresh fun _ ↦ rfl
  · exact Parties.forall_mem_join hflight.busy fun hactive ↦ absurd hactive hidle
  · intro place other first second hfirst hsecond hfirstActive hsecondActive
    rcases Parties.getElem?_join hfirst with hfirst | ⟨rfl, rfl⟩
    · rcases Parties.getElem?_join hsecond with hsecond | ⟨rfl, rfl⟩
      · exact hflight.single place other first second hfirst hsecond hfirstActive hsecondActive
      · exact absurd hsecondActive hidle
    · exact absurd hfirstActive hidle

end

/-- While a restart waits, the job verifies; afterwards its verdict says so. -/
def Kept (state : State) : Prop :=
  (∃ start ∈ state.parties, start.Relies) →
    (∀ job ∈ state.parties, job.Active → job.willVerify state.shared.persistVerifyOwed = true) ∧
      (state.shared.persistBusy = false → state.shared.persistResult = .ok →
        state.shared.persistChecked = true)

theorem relies_apply (henabled : move.Enabled start)
    (hrelies : (move.apply shared start).2.Relies) :
    start.Relies ∨ move = .checkBusy ∧ shared.persistBusy ∨
      move = .accept ∧ shared.persistBusy = false ∧ start.purpose = .restart := by
  have hpurpose : start.purpose = .restart := purpose_apply.symm.trans hrelies.1
  cases move with
  | giveUp answer =>
    rcases henabled with ⟨-, rfl | rfl⟩ | ⟨-, rfl⟩ <;> simp [Move.apply, Start.Relies] at hrelies
  | request => simp [Move.apply, Start.Relies] at hrelies
  | checkBusy =>
    rw [Move.apply] at hrelies
    split_ifs at hrelies with hbusy
    · exact .inr (.inl ⟨rfl, hbusy⟩)
    · simp [Start.Relies] at hrelies
  | accept =>
    rw [Move.apply] at hrelies
    split_ifs at hrelies with hbusy
    · simp [Start.Relies] at hrelies
    · exact .inr (.inr ⟨rfl, by simpa using hbusy, hpurpose⟩)
  | create created =>
    cases created with
    | true => exact .inl ⟨hpurpose, hrelies.2.1, .inl henabled⟩
    | false => simp [Move.apply, Start.Relies] at hrelies
  | look => exact .inl hrelies
  | work | finish =>
    rw [Move.apply] at hrelies
    split at hrelies <;> exact .inl hrelies
  | observe => exact .inl henabled.1

theorem willVerify_owed {owed : Bool} (hverify : start.willVerify owed) :
    start.willVerify true := by
  rw [Start.willVerify] at hverify ⊢
  split <;> simp_all

theorem willVerify_apply (henabled : move.Enabled start)
    (hfresh : (∀ answer, start.caller ≠ .returned answer) → start.task = .absent)
    (hsave : start.Active → shared.persistSave = start.purpose.save)
    (hverify : start.willVerify shared.persistVerifyOwed) :
    (move.apply shared start).2.willVerify
      (move.apply shared start).1.persistVerifyOwed := by
  cases move with
  | giveUp => exact hverify
  | request => exact willVerify_owed hverify
  | checkBusy =>
    rw [Move.apply]
    split_ifs <;> exact hverify
  | accept =>
    rw [Move.apply]
    split_ifs <;> exact hverify
  | create created =>
    have hcaller : start.caller = .accepted := henabled
    have habsent : start.task = .absent := hfresh (by simp [hcaller])
    rw [Start.willVerify, habsent] at hverify
    cases created with
    | true => exact hverify
    | false =>
      simp only [Move.apply, Start.willVerify, habsent]
      exact hverify
  | look =>
    have htask : start.task = .created := henabled
    rw [Start.willVerify, htask] at hverify
    rw [← hsave (.inr (by rw [htask]; rfl))] at hverify
    exact hverify
  | work result =>
    rw [Move.apply]
    split
    case h_1 save verify htask =>
      rw [Start.willVerify, htask] at hverify
      rw [show verify = true from hverify]
      cases result <;> rfl
    case h_2 => exact hverify
  | finish =>
    rw [Move.apply]
    split
    · rfl
    · exact hverify
  | observe =>
    rw [Move.apply]
    split_ifs <;> exact hverify

theorem owed_apply (shared : Shared) (start : Start) (hlook : move ≠ .look) :
    (move.apply shared start).1.persistVerifyOwed = shared.persistVerifyOwed ∨
      (move.apply shared start).1.persistVerifyOwed := by
  cases move with
  | create created => cases created <;> exact .inl rfl
  | checkBusy | accept | observe =>
    rw [Move.apply]
    split_ifs <;> exact .inl rfl
  | work | finish =>
    rw [Move.apply]
    split <;> exact .inl rfl
  | giveUp => exact .inl rfl
  | request => exact .inr rfl
  | look => exact absurd rfl hlook

theorem Kept.moved (hkept : Kept state) (hflight : Flight state)
    (hstart : state.parties[number]? = some start) (henabled : move.Enabled start)
    (hundisturbed : Undisturbed state (.move number move)) :
    Kept (state.replace number (move.apply state.shared start)) := by
  have hmem : start ∈ state.parties := mem_of_getElem? hstart
  have hfresh := hflight.fresh start hmem
  have heffect := effect_apply state.shared henabled hfresh
  rintro ⟨waiting, hwaiting, hrelies⟩
  have hbefore : (∃ other ∈ state.parties, other.Relies) ∨
      move = .checkBusy ∧ state.shared.persistBusy = true ∨
      move = .accept ∧ state.shared.persistBusy = false ∧ start.purpose = .restart := by
    rcases Parties.mem_replace hwaiting with hold | rfl
    · exact .inl ⟨waiting, hold, hrelies⟩
    · exact (relies_apply henabled hrelies).imp_left fun h ↦ ⟨start, hmem, h⟩
  -- the jobs there were verify, and so does one that is accepted now
  have hjobs : ∀ job ∈ state.parties, job.Active →
      job.willVerify state.shared.persistVerifyOwed = true := by
    rcases hbefore with hrelied | ⟨rfl, -⟩ | ⟨-, hfree, -⟩
    · exact (hkept hrelied).1
    · exact hundisturbed
    · exact fun job hjob hactive ↦ absurd (hflight.busy job hjob hactive).1 (by simp [hfree])
  have hself : (move.apply state.shared start).2.Active →
      start.willVerify state.shared.persistVerifyOwed = true := by
    intro hactive
    cases heffect with
    | same hback => exact hjobs start hmem (hback hactive)
    | accepted hmove hfree =>
      subst hmove
      have hstarting : start.caller = .starting := henabled
      have habsent : start.task = .absent := hfresh (by simp [hstarting])
      have hrequested := hundisturbed hfree start hstart
      rw [Start.willVerify, habsent]
      cases hpurpose : start.purpose with
      | restart =>
        rw [hpurpose] at hrequested
        exact hrequested
      | ordinary save =>
        rw [hpurpose] at hrequested
        rcases hbefore with ⟨other, hother, hrelied⟩ | ⟨hmove, -⟩ | ⟨-, -, hrestart⟩
        · exact absurd hrelied (hrequested.1 other hother)
        · cases hmove
        · rw [hpurpose] at hrestart
          cases hrestart
    | closed hstartActive => exact hjobs start hmem hstartActive
  constructor
  · intro job hjob hactive
    obtain ⟨place, hplace⟩ := mem_iff_getElem?.mp hjob
    rcases hflight.active_cases hstart hplace hactive with ⟨rfl, rfl⟩ | ⟨-, hold, hidle⟩
    · exact willVerify_apply henabled hfresh (fun h ↦ (hflight.busy start hmem h).2.1) (hself hactive)
    · have hlook : move ≠ .look := by
        rintro rfl
        exact hidle (.inr (by rw [show start.task = .created from henabled]; rfl))
      rcases owed_apply state.shared start hlook with hsame | howed
      · rw [Parties.replace, hsame]
        exact hjobs job hold hactive
      · rw [Parties.replace, howed]
        exact willVerify_owed (hjobs job hold hactive)
  · intro hidle hok
    cases heffect with
    | same _ hbusy _ hresult hchecked =>
      have hfree : state.shared.persistBusy = false := hbusy.symm.trans hidle
      rcases hbefore with hrelied | ⟨-, hwas⟩ | ⟨rfl, -, -⟩
      · exact hchecked.trans ((hkept hrelied).2 hfree (hresult.symm.trans hok))
      · exact absurd hwas (by simp [hfree])
      · simp [Move.apply, hfree] at hbusy
    | accepted _ _ hbusy => exact absurd (hbusy.symm.trans hidle) (by simp)
    | closed hactive _ hverdict =>
      exact hverdict (hflight.busy start hmem hactive).2.2 (hjobs start hmem hactive) hok

/-! ## Whose request a job takes -/

/-- A save that was accepted after the call of a restart had returned finds no request of it. -/
structure Start.Fair (shared : Shared) (start : Start) : Prop where
  entered : start.caller = .entered → start.number ∉ shared.answered
  earlier : ∀ restart ∈ start.earlier, restart ∈ shared.answered
  owed : start.purpose = .ordinary true → start.task = .absent ∨ start.task = .created →
    ∀ restart ∈ shared.owedTo, restart ∉ start.earlier
  untaken : start.task = .absent → start.taken = []
  taken : start.purpose = .ordinary true → ∀ restart ∈ start.taken, restart ∉ start.earlier

structure Requests (state : State) : Prop where
  number : ∀ (place : Nat) (start : Start), state.parties[place]? = some start → start.number = place
  answered : ∀ restart ∈ state.shared.answered, restart < state.parties.length
  fair : ∀ start ∈ state.parties, start.Fair state.shared

theorem answered_apply (shared : Shared) (start : Start) (move : Move) :
    (move.apply shared start).1.answered = shared.answered ∨
      (move.apply shared start).1.answered = start.number :: shared.answered := by
  have hanswer : (shared.answer start).answered = shared.answered ∨
      (shared.answer start).answered = start.number :: shared.answered := by
    cases hpurpose : start.purpose <;> simp [Shared.answer, hpurpose]
  cases move with
  | giveUp => exact hanswer
  | create created => cases created <;> exact hanswer
  | checkBusy | accept =>
    rw [Move.apply]
    split_ifs
    · exact hanswer
    · exact .inl rfl
  | observe =>
    rw [Move.apply]
    split_ifs <;> exact .inl rfl
  | work | finish =>
    rw [Move.apply]
    split <;> exact .inl rfl
  | request | look => exact .inl rfl

theorem owedTo_apply (henabled : move.Enabled start) {restart : Nat}
    (howed : restart ∈ (move.apply shared start).1.owedTo) :
    restart ∈ shared.owedTo ∨ restart = start.number ∧ start.caller = .entered := by
  cases move with
  | giveUp => exact .inl howed
  | create created => cases created <;> exact .inl howed
  | checkBusy | accept | observe =>
    rw [Move.apply] at howed
    split_ifs at howed <;> exact .inl howed
  | work | finish =>
    rw [Move.apply] at howed
    split at howed <;> exact .inl howed
  | request => exact (mem_cons.mp howed).symm.imp_right fun h ↦ ⟨h, henabled⟩
  | look => cases howed

theorem Start.Fair.of_other {other : Start} (hfair : other.Fair shared)
    (hstart : start.Fair shared) (henabled : move.Enabled start)
    (hother : other.number ≠ start.number) : other.Fair (move.apply shared start).1 where
  entered := by
    intro hentered
    rcases answered_apply shared start move with hsame | hadded
    · rw [hsame]
      exact hfair.entered hentered
    · rw [hadded, mem_cons, not_or]
      exact ⟨hother, hfair.entered hentered⟩
  earlier := by
    intro restart hearlier
    have hold := hfair.earlier restart hearlier
    rcases answered_apply shared start move with hsame | hadded
    · rwa [hsame]
    · rw [hadded]
      exact mem_cons_of_mem _ hold
  owed := by
    intro hpurpose htask restart howed hearlier
    rcases owedTo_apply henabled howed with hold | ⟨rfl, hentered⟩
    · exact hfair.owed hpurpose htask restart hold hearlier
    · exact hstart.entered hentered (hfair.earlier _ hearlier)
  untaken := hfair.untaken
  taken := hfair.taken

theorem Start.Fair.keep {shared shared' : Shared} {start' : Start} (hfair : start.Fair shared)
    (hpurpose : start'.purpose = start.purpose) (hnumber : start'.number = start.number)
    (hearlier : start'.earlier = start.earlier) (htaken : start'.taken = start.taken)
    (hentered : start'.caller = .entered → start.caller = .entered ∧ shared'.answered = shared.answered)
    (hanswered : ∀ restart ∈ shared.answered, restart ∈ shared'.answered)
    (howed : ∀ restart ∈ shared'.owedTo,
      restart ∈ shared.owedTo ∨ restart = start.number ∧ start.caller = .entered)
    (habsent : start'.task = .absent → start.task = .absent)
    (hcreated : start'.task = .created → start.task = .absent ∨ start.task = .created) :
    start'.Fair shared' where
  entered := by
    intro hcaller
    obtain ⟨hwas, hsame⟩ := hentered hcaller
    rw [hnumber, hsame]
    exact hfair.entered hwas
  earlier := by
    rw [hearlier]
    exact fun restart hrestart ↦ hanswered restart (hfair.earlier restart hrestart)
  owed := by
    rw [hpurpose, hearlier]
    intro hordinary hnew restart hrestart hin
    rcases howed restart hrestart with hold | ⟨rfl, hwas⟩
    · have htask : start.task = .absent ∨ start.task = .created :=
        hnew.elim (fun h ↦ .inl (habsent h)) hcreated
      exact hfair.owed hordinary htask restart hold hin
    · exact hfair.entered hwas (hfair.earlier _ hin)
  untaken := by
    rw [htaken]
    exact fun h ↦ hfair.untaken (habsent h)
  taken := by
    rw [hpurpose, hearlier, htaken]
    exact hfair.taken

theorem Start.Fair.moved (hfair : start.Fair state.shared) (henabled : move.Enabled start)
    (hfresh : (∀ answer, start.caller ≠ .returned answer) → start.task = .absent)
    (hstart : state.parties[number]? = some start)
    (hundisturbed : Undisturbed state (.move number move)) :
    (move.apply state.shared start).2.Fair (move.apply state.shared start).1 := by
  have hanswer (restart : Nat) (hrestart : restart ∈ state.shared.answered) :
      restart ∈ (move.apply state.shared start).1.answered := by
    rcases answered_apply state.shared start move with hsame | hadded
    · rwa [hsame]
    · rw [hadded]
      exact mem_cons_of_mem _ hrestart
  have howed (restart : Nat) (hrestart : restart ∈ (move.apply state.shared start).1.owedTo) :=
    owedTo_apply henabled hrestart
  cases move with
  | giveUp => exact hfair.keep rfl rfl rfl rfl (by simp [Move.apply]) hanswer howed id .inr
  | request => exact hfair.keep rfl rfl rfl rfl (by simp [Move.apply]) hanswer howed id .inr
  | checkBusy =>
    rw [Move.apply] at hanswer howed ⊢
    split_ifs at hanswer howed ⊢
    · exact hfair.keep rfl rfl rfl rfl (by simp) hanswer howed id .inr
    · exact hfair.keep rfl rfl rfl rfl (by simp) hanswer howed id .inr
  | accept =>
    have hstarting : start.caller = .starting := henabled
    rw [Move.apply] at hanswer howed ⊢
    split_ifs at hanswer howed ⊢ with hbusy
    · exact hfair.keep rfl rfl rfl rfl (by simp) hanswer howed id .inr
    · have hfree : state.shared.persistBusy = false := by simpa using hbusy
      have hallowed := hundisturbed hfree start hstart
      have habsent : start.task = .absent := hfresh (by simp [hstarting])
      refine ⟨by simp, fun _ ↦ id, fun hordinary _ ↦ ?_, hfair.untaken, fun _ ↦ ?_⟩
      · rw [show start.purpose = .ordinary true from hordinary] at hallowed
        exact hallowed.2 rfl
      · simp [hfair.untaken habsent]
  | create created =>
    have hcaller : start.caller = .accepted := henabled
    have habsent : start.task = .absent := hfresh (by simp [hcaller])
    cases created with
    | true =>
      exact hfair.keep rfl rfl rfl rfl (by simp [Move.apply]) hanswer howed (fun _ ↦ habsent)
        fun _ ↦ .inl habsent
    | false =>
      exact hfair.keep rfl rfl rfl rfl (by simp [Move.apply]) hanswer howed id .inr
  | look =>
    have htask : start.task = .created := henabled
    refine ⟨hfair.entered, hfair.earlier, by simp [Move.apply], by simp [Move.apply], fun hordinary ↦ ?_⟩
    exact hfair.owed hordinary (.inr htask)
  | work result =>
    rw [Move.apply] at hanswer howed ⊢
    split
    · exact hfair.keep rfl rfl rfl rfl (fun h ↦ ⟨h, rfl⟩) (fun _ ↦ id) (fun _ h ↦ .inl h) (by simp)
        (by simp)
    · exact hfair
  | finish =>
    rw [Move.apply] at hanswer howed ⊢
    split
    · exact hfair.keep rfl rfl rfl rfl (fun h ↦ ⟨h, rfl⟩) (fun _ ↦ id) (fun _ h ↦ .inl h) (by simp)
        (by simp)
    · exact hfair
  | observe =>
    rw [Move.apply]
    split_ifs
    · exact hfair
    · exact hfair.keep rfl rfl rfl rfl (fun h ↦ ⟨h, rfl⟩) (fun _ ↦ id) (fun _ h ↦ .inl h) id .inr

theorem Requests.moved (hrequests : Requests state) (hflight : Flight state)
    (hstart : state.parties[number]? = some start) (henabled : move.Enabled start)
    (hundisturbed : Undisturbed state (.move number move)) :
    Requests (state.replace number (move.apply state.shared start)) := by
  have hmem : start ∈ state.parties := mem_of_getElem? hstart
  have hfair := hrequests.fair start hmem
  have hnumber : start.number = number := hrequests.number number start hstart
  have hlength : number < state.parties.length := (List.getElem?_eq_some_iff.mp hstart).1
  constructor
  · intro place job hjob
    rcases Parties.getElem?_replace hstart hjob with ⟨rfl, rfl⟩ | ⟨-, hold⟩
    · rwa [number_apply]
    · exact hrequests.number place job hold
  · intro restart hrestart
    rw [Parties.replace, length_set]
    rcases answered_apply state.shared start move with hsame | hadded
    · exact hrequests.answered restart (hsame ▸ hrestart)
    · rcases mem_cons.mp (hadded ▸ hrestart) with rfl | hold
      · rwa [hnumber]
      · exact hrequests.answered restart hold
  · intro job hjob
    obtain ⟨place, hplace⟩ := mem_iff_getElem?.mp hjob
    rcases Parties.getElem?_replace hstart hplace with ⟨-, rfl⟩ | ⟨hne, hold⟩
    · exact hfair.moved henabled (hflight.fresh start hmem) hstart hundisturbed
    · have hother : job.number ≠ start.number := by
        rw [hrequests.number place job hold, hnumber]
        exact hne
      exact (hrequests.fair job (mem_of_getElem? hold)).of_other hfair henabled hother

theorem Requests.join (hrequests : Requests state) (purpose : Purpose) : Requests (state.join state.shared
      { number := state.parties.length, purpose := purpose, caller := purpose.first }) := by
  constructor
  · intro place job hjob
    rcases Parties.getElem?_join hjob with hold | ⟨rfl, rfl⟩
    · exact hrequests.number place job hold
    · rfl
  · intro restart hrestart
    rw [Parties.join, length_append]
    exact Nat.lt_of_lt_of_le (hrequests.answered restart hrestart) (Nat.le_add_right _ _)
  · apply Parties.forall_mem_join hrequests.fair
    refine ⟨fun _ hanswered ↦ ?_, by simp, by simp, fun _ ↦ rfl, by simp⟩
    exact absurd (hrequests.answered _ hanswered) (Nat.lt_irrefl _)

theorem Kept.join (hkept : Kept state) (purpose : Purpose) : Kept (state.join state.shared
      { number := state.parties.length, purpose := purpose, caller := purpose.first }) := by
  rintro ⟨waiting, hwaiting, hrelies⟩
  have hold : waiting ∈ state.parties := by
    rcases mem_append.mp hwaiting with hold | hnew
    · exact hold
    · rw [mem_singleton.mp hnew] at hrelies
      cases purpose <;> simp [Start.Relies, Purpose.first] at hrelies
  obtain ⟨hjobs, hidle⟩ := hkept ⟨waiting, hold, hrelies⟩
  refine ⟨Parties.forall_mem_join hjobs ?_, hidle⟩
  cases purpose <;> simp [Start.Active, Purpose.first, Task.isActive]

theorem observed_apply (hkept : Kept state) (hstart : start ∈ state.parties)
    (henabled : move.Enabled start)
    (hobserved : ∀ checked, start.observed = some (.ok, checked) → checked) :
    ∀ checked, (move.apply state.shared start).2.observed = some (.ok, checked) → checked := by
  cases move with
  | create created => cases created <;> exact hobserved
  | checkBusy | accept =>
    rw [Move.apply]
    split_ifs <;> exact hobserved
  | work | finish =>
    rw [Move.apply]
    split <;> exact hobserved
  | giveUp | request | look => exact hobserved
  | observe =>
    rw [Move.apply]
    split_ifs with hbusy
    · exact hobserved
    · have hidle := (hkept ⟨start, hstart, henabled.1⟩).2 (by simpa using hbusy)
      intro checked hread
      obtain ⟨hresult, rfl⟩ := Prod.mk.inj (Option.some.inj hread)
      exact hidle hresult

end Move

/-! ## Every run -/

structure Sound (state : State) : Prop where
  flight : Flight state
  kept : Kept state
  requests : Requests state
  observed : ∀ start ∈ state.parties, ∀ checked, start.observed = some (.ok, checked) → checked = true

theorem sound_start : Sound start where
  flight := ⟨by simp [start], by simp [start], by simp [start]⟩
  kept := by
    rintro ⟨other, hother, -⟩
    simp [start] at hother
  requests := ⟨by simp [start], by simp [start], by simp [start]⟩
  observed := by simp [start]

theorem sound_step {state state' : State} {event : Event} (hsound : Sound state)
    (hstep : Undisturbed state event ∧ Step state event state') : Sound state' := by
  obtain ⟨hundisturbed, hstep⟩ := hstep
  cases event with
  | call purpose =>
    cases hstep
    exact ⟨hsound.flight.join purpose, hsound.kept.join purpose, hsound.requests.join purpose,
      Parties.forall_mem_join hsound.observed (by simp)⟩
  | move number move =>
    obtain ⟨start, hstart, henabled, rfl⟩ := Parties.move_eq_some_iff.mp hstep
    have hmem : start ∈ state.parties := mem_of_getElem? hstart
    exact ⟨hsound.flight.moved hstart henabled,
      hsound.kept.moved hsound.flight hstart henabled hundisturbed,
      hsound.requests.moved hsound.flight hstart henabled hundisturbed,
      Parties.forall_mem_replace hsound.observed
        (observed_apply hsound.kept hmem henabled (hsound.observed start hmem))⟩

theorem Sound.verified {state : State} (hsound : Sound state) : Verified state where
  kept := hsound.observed
  own := fun start hstart ↦ (hsound.requests.fair start hstart).taken

/-- In an undisturbed run every restart finds a file that was checked, or a job that did not end
well, and no request is left to a later save. -/
theorem restart_keeps_verified {events : List Event} {state : State}
    (hrun : Run (fun state event state' ↦ Undisturbed state event ∧ Step state event state') start
      events state) : Verified state := by
  have hsound : Sound state := hrun.preserves (fun _ _ _ hsound hstep ↦ sound_step hsound hstep) sound_start
  exact hsound.verified

/-- A restart saves, waits and finds the file checked; the operator saves afterwards. -/
def quietRestart : List Event :=
  [.call .restart, .move 0 .request, .move 0 .checkBusy, .move 0 .accept, .move 0 (.create true),
    .move 0 .look, .move 0 (.work .ok), .move 0 .finish, .move 0 .observe, .call (.ordinary true),
    .move 1 .accept, .move 1 (.create true), .move 1 .look, .move 1 (.work .ok), .move 1 .finish]

theorem exists_restart_keeps_verified :
    ∃ state, Run (fun state event state' ↦ Undisturbed state event ∧ Step state event state') start
      quietRestart state ∧ Verified state := by
  have hsome : (steps (fun state event ↦ if Undisturbed state event then step state event else none)
      start quietRestart).isSome = true := by decide +kernel
  obtain ⟨state, hsteps⟩ := Option.isSome_iff_exists.mp hsome
  have hrun : Run (fun state event state' ↦ Undisturbed state event ∧ Step state event state') start
      quietRestart state :=
    run_of_allowedSteps hsteps
  exact ⟨state, hrun, restart_keeps_verified hrun⟩

/-- A save has looked for a request just before the restart leaves its own. -/
def lateRestart : List Event :=
  [.call (.ordinary true), .move 0 .accept, .move 0 (.create true), .move 0 .look, .call .restart,
    .move 1 .request, .move 1 .checkBusy, .move 0 (.work .ok), .move 0 .finish, .move 1 .observe]

theorem late_restart_unverified : ¬∀ (events : List Event) (state : State),
    Run Step start events state → Verified state := by
  intro hall
  have hparty : (steps step start lateRestart).any (fun state ↦
      state.parties.any fun party ↦ party.observed == some (.ok, false)) = true := by decide +kernel
  obtain ⟨state, hrun, hany⟩ := exists_run_of_any hparty
  obtain ⟨party, hmem, hobserved⟩ := any_eq_true.mp hany
  have hchecked := (hall lateRestart state hrun).kept party hmem false
    (beq_iff_eq.mp hobserved)
  cases hchecked

end DhcpServer.Dns.RestartSaves
