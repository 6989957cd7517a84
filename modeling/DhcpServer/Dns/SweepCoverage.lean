import DhcpServer.Dns.OldestEntries

/-!
# What a sweep covers

`oldestEntries` returns the youngest records. A second block therefore asks for the records again that
the first one has refreshed, and a sweep covers the cache only where one block holds all of it.
-/

namespace DhcpServer.Dns.CacheAutoUpdate

open Library InternalCache List Option

variable {inet : Inet} {settings : Settings} {env : Environment} {arena arena' : Arena}
  {sweep : Sweep} {key : Key} {keys plan pending : List Key} {now : UInt32} {max : Nat}

/-- The youngest records of a cache, as many as there is room for. -/
structure Youngest (arena : Arena) (max : Nat) (now : UInt32) (keys : List Key) : Prop where
  nodup : keys.Nodup
  recorded : ∀ key ∈ keys, (arena.recordOf key).isSome
  length : keys.length = min max arena.entries
  younger : ∀ kept ∈ keys, ∀ other, other ∉ keys → ∀ record record', arena.recordOf kept = some record →
    arena.recordOf other = some record' → ageOf now record ≤ ageOf now record'
  all : arena.entries ≤ max → ∀ key, (arena.recordOf key).isSome → key ∈ keys

theorem oldestEntries_youngest (hwell : WellFormed arena) (max : Nat) (now : UInt32) :
    ∃ keys, oldestEntries arena max (isPending []) now = some keys ∧ Youngest arena max now keys := by
  obtain ⟨kept, dropped, hsel, hkeys⟩ := exists_selected hwell max (isPending []) now
  have hmem (index : Nat) : index ∈ kept ++ dropped ↔ arena.Chained index := by
    rw [hsel.mem]
    exact and_iff_left rfl
  have hown : ∀ index ∈ kept, arena.Chained index :=
    fun index hindex ↦ (hmem index).mp (mem_append_left dropped hindex)
  have hentries : arena.entries = (kept ++ dropped).length := by
    obtain ⟨members, hnodup, hmembers, hlength⟩ := hwell.exists_members
    rw [hlength, ((perm_ext_iff_of_nodup hsel.nodup hnodup).mpr fun index ↦
      (hmem index).trans (hmembers index)).length_eq]
  have hnodup := hsel.nodup_keys hwell
  rw [map_append, nodup_append] at hnodup
  refine ⟨_, hkeys, hnodup.1, ?_, ?_, ?_, ?_⟩
  · intro key hkey
    obtain ⟨index, hindex, rfl⟩ := List.mem_map.mp hkey
    rw [hwell.recordOf_chained (hown index hindex), isSome_some]
  · rw [length_map, hsel.length, hentries]
  · intro key hkey other hother record record' hrecord hrecord'
    obtain ⟨index, hindex, rfl⟩ := List.mem_map.mp hkey
    obtain ⟨later, hlater, rfl, rfl⟩ := hwell.recordOf_eq_some.mp hrecord'
    rw [hwell.recordOf_chained (hown index hindex)] at hrecord
    cases hrecord
    have hdropped : later ∈ dropped := by
      refine (mem_append.mp ((hmem later).mpr hlater)).resolve_left fun hin ↦ ?_
      exact hother (mem_map_of_mem hin)
    exact hsel.younger index hindex later hdropped
  · intro hroom key hkey
    obtain ⟨record, hrecord⟩ := isSome_iff_exists.mp hkey
    obtain ⟨index, hchained, rfl, -⟩ := hwell.recordOf_eq_some.mp hrecord
    have hindex : index ∈ kept ++ dropped := (hmem index).mpr hchained
    have hlength := hsel.length
    rw [← hentries, Nat.min_eq_right hroom, hentries, length_append] at hlength
    have hnone : dropped = [] := length_eq_zero_iff.mp (by omega)
    rw [hnone, append_nil] at hindex
    exact mem_map_of_mem hindex

theorem recorded_mem (hwell : WellFormed arena)
    (holdest : oldestEntries arena max (isPending []) now = some keys) (hroom : arena.entries ≤ max)
    (hkey : (arena.recordOf key).isSome) : key ∈ keys := by
  obtain ⟨same, hsame, hyoungest⟩ := oldestEntries_youngest hwell max now
  obtain rfl := mem_unique hsame holdest
  exact hyoungest.all hroom key hkey

/-- Some records were stored again at `now`; the others are as they were. -/
structure Refreshes (now : UInt32) (keys : List Key) (arena arena' : Arena) : Prop where
  tidy : Tidy arena'
  stored : ∀ key record, arena.recordOf key = some record → ∃ record', arena'.recordOf key = some record' ∧
    (record'.storedMs = record.storedMs ∨ record'.storedMs = now)
  others : ∀ key, key ∉ keys → arena'.recordOf key = arena.recordOf key

namespace Refreshes

theorem refl (htidy : Tidy arena) (keys : List Key) : Refreshes now keys arena arena where
  tidy := htidy
  stored := fun _ record hrecord ↦ ⟨record, hrecord, .inl rfl⟩
  others := fun _ _ ↦ rfl

theorem trans {middle : Arena} {more : List Key} (hfirst : Refreshes now keys arena middle)
    (hsecond : Refreshes now more middle arena') : Refreshes now (keys ++ more) arena arena' where
  tidy := hsecond.tidy
  stored := by
    intro key record hrecord
    obtain ⟨between, hbetween, hstamp⟩ := hfirst.stored key record hrecord
    obtain ⟨record', hrecord', hlater⟩ := hsecond.stored key between hbetween
    refine ⟨record', hrecord', ?_⟩
    rcases hlater with hsame | hnow
    · rwa [hsame]
    · exact .inr hnow
  others := by
    intro key hkey
    obtain ⟨hkeys, hmore⟩ := not_or.mp (mt mem_append.mpr hkey)
    rw [hsecond.others key hmore, hfirst.others key hkeys]

end Refreshes

theorem exists_storeInternal (htidy : Tidy arena) (inet : Inet) (key : Key) (payload : Payload)
    (time scanUs : Nat) :
    ∃ arena', arena.storeInternal inet key.1 key.2 payload (nowMs time) scanUs = some arena' ∧
      Tidy arena' := by
  obtain ⟨arena', hstep, -⟩ := htidy.wellFormed.step inet true (.store key.1 key.2 payload time scanUs)
  have htidy' := htidy.effect (htidy.wellFormed.effect hstep)
  simp only [Arena.step, Arena.perform, Option.map_map, map_eq_some_iff] at hstep
  obtain ⟨same, hstore, rfl⟩ := hstep
  exact ⟨same, hstore, htidy'⟩

theorem keyName_of_recorded (htidy : Tidy arena) (hkey : (arena.recordOf key).isSome) :
    keyName key.1 = key.1 := by
  obtain ⟨record, hrecord⟩ := isSome_iff_exists.mp hkey
  obtain ⟨index, hchained, rfl, -⟩ := htidy.wellFormed.recordOf_eq_some.mp hrecord
  have hsane := htidy.sane index hchained
  calc
    keyName (arena.nodes index).name = cString (arena.nodes index).name := congrArg cString hsane.lowered
    _ = (arena.nodes index).name := cString_eq_self hsane.zeroFree

theorem written_storedMs (old : Node) (inet : Inet) (payload : Payload) (now : UInt32) :
    (old.written inet payload now).record.storedMs = now :=
  (sameButAddresses_withAddresses _ _ _).storedMs

theorem refreshes_storeInternal (htidy : Tidy arena) (hkey : (arena.recordOf key).isSome)
    {payload : Payload} {time scanUs : Nat}
    (hstore : arena.storeInternal inet key.1 key.2 payload (nowMs time) scanUs = some arena')
    (htidy' : Tidy arena') : Refreshes (nowMs time) [key] arena arena' := by
  by_cases hstorable : Storable key.1 key.2 payload.ips
  · obtain ⟨same, index, old, hsame, hstored⟩ :=
      htidy.wellFormed.storeInternal hstorable inet (nowMs time) scanUs
    obtain rfl := mem_unique hsame hstore
    rw [keyName_of_recorded htidy hkey] at hstored
    have hevicted : arena.evictedFor key (nowMs time) = none := by rw [Arena.evictedFor, if_pos hkey]
    have hothers : ∀ other, other ≠ key → same.recordOf other = arena.recordOf other := by
      intro other hother
      rw [hstored.recordOf_other htidy.wellFormed hother, hevicted]
      rfl
    refine ⟨htidy', fun other record hrecord ↦ ?_, fun other hother ↦ hothers other (by simpa using hother)⟩
    by_cases hsameKey : other = key
    · subst hsameKey
      exact ⟨_, hstored.recordOf_self, .inr (written_storedMs old inet payload _)⟩
    · exact ⟨record, (hothers other hsameKey).trans hrecord, .inl rfl⟩
  · rw [storeInternal_not_storable hstorable] at hstore
    cases hstore
    exact .refl htidy [key]

theorem exists_ask (htidy : Tidy sweep.arena) (inet : Inet) (env : Environment) (item : Key) :
    ∃ later, ask inet env sweep item = some later ∧ Tidy later.arena ∧
      later.asked = sweep.asked ++ [item] ∧ later.looks = sweep.looks ∧ later.stops = sweep.stops := by
  simp only [ask]
  split_ifs with hfound
  · obtain ⟨arena', hstore, htidy'⟩ := exists_storeInternal htidy inet item
      ⟨(env.reply sweep.asked.length).ips, (env.reply sweep.asked.length).ttl, none⟩
      (sweep.time + (env.reply sweep.asked.length).tookMs) (env.reply sweep.asked.length).scanUs
    rw [hstore, map_some]
    exact ⟨_, rfl, htidy', rfl, rfl, rfl⟩
  · exact ⟨_, rfl, htidy, rfl, rfl, rfl⟩

/-! ## One block -/

theorem exists_askPlan (htidy : Tidy sweep.arena) (inet : Inet) (env : Environment) (plan : List Key) :
    ∃ later returned, askPlan inet env plan sweep = some (later, returned) ∧
      (later.asked = sweep.asked ++ plan ∧ returned = false ∨ Disturbed env later.looks later.stops) := by
  induction plan generalizing sweep with
  | nil => exact ⟨sweep, false, rfl, .inl ⟨by rw [append_nil], rfl⟩⟩
  | cons item rest ih =>
    rw [askPlan]
    split_ifs with hlook
    · exact ⟨_, _, rfl, .inr (.inl ⟨sweep.looks, Nat.lt_succ_self _, hlook⟩)⟩
    · have hlooked : Tidy sweep.look.arena := htidy
      obtain ⟨later, hask, htidy', hasked, -, -⟩ := exists_ask hlooked inet env item
      simp only [hask, bind_eq_bind, bind_some]
      split_ifs with hstop
      · exact ⟨_, _, rfl, .inr (.inr ⟨later.stops, Nat.lt_succ_self _, hstop⟩)⟩
      · have hasking : Tidy later.stopIfAsked.arena := htidy'
        obtain ⟨last, returned, hrest, hend⟩ := ih hasking
        refine ⟨last, returned, hrest, hend.imp_left fun hdone ↦ ⟨?_, hdone.2⟩⟩
        calc
          last.asked = later.asked ++ rest := hdone.1
          _ = sweep.asked ++ [item] ++ rest := by rw [hasked]; rfl
          _ = sweep.asked ++ item :: rest := by simp

theorem Disturbed.mono {looks stops later laterStops : Nat} (hdisturbed : Disturbed env looks stops)
    (hlooks : looks ≤ later) (hstops : stops ≤ laterStops) : Disturbed env later laterStops :=
  hdisturbed.imp (fun ⟨look, hlook, hoff⟩ ↦ ⟨look, hlook.trans_le hlooks, hoff⟩)
    fun ⟨stop, hstop, hasked⟩ ↦ ⟨stop, hstop.trans_le hstops, hasked⟩

theorem runSweep_started {cache : Cache} {time : Nat} (harena : cache.arena = some arena)
    (hignore : cache.ignoreTtl) (hrefresh : env.hasRefresh)
    (hroom : env.registryRoom) :
    runSweep inet settings env cache pending time =
      if autoUpdateBlockCount arena.entries settings.batch = 0 then some ⟨[], pending, 0, 0, .skipped⟩
      else
        (runBlocks inet settings env (autoUpdateBlockCount arena.entries settings.batch)
          (autoUpdateBlockCount arena.entries settings.batch) pending
          ⟨arena, [], time, [], 0, 0, 0⟩).map (finishSweep env) := by
  simp only [runSweep, harena, hignore, hrefresh, hroom, Bool.true_eq_false, false_or, or_false]

variable {records batch : Nat}

theorem blockCount_eq_zero_iff : autoUpdateBlockCount records batch = 0 ↔ records = 0 ∨ batch = 0 := by
  unfold autoUpdateBlockCount
  split_ifs with hnone
  · exact iff_of_true rfl hnone
  · obtain ⟨hrecords, hbatch⟩ := not_or.mp hnone
    refine iff_of_false ?_ hnone
    exact (Nat.div_pos (by omega) (Nat.pos_of_ne_zero hbatch)).ne'

theorem blockCount_eq_one (hrecords : records ≠ 0) (hle : records ≤ batch) :
    autoUpdateBlockCount records batch = 1 := by
  rw [autoUpdateBlockCount, if_neg (by omega)]
  apply Nat.div_eq_of_lt_le <;> omega

theorem runBlock_eq (inet : Inet) (env : Environment) (block blocks : Nat) (hpending : sweep.pending = [])
    (hbatch : settings.batch ≠ 0)
    (hplan : oldestEntries sweep.arena settings.batch (isPending []) (nowMs sweep.time) = some plan)
    (hsome : plan ≠ []) :
    runBlock inet settings env block blocks [] sweep =
      (askPlan inet env plan sweep).map (afterPlan settings env block blocks) := by
  have hplanned : planBlock settings sweep [] = some plan := by
    rw [planBlock, length_nil, if_pos (Nat.pos_of_ne_zero hbatch), hpending, Nat.sub_zero, hplan]
    rfl
  rw [runBlock, hplanned]
  simp only [bind_eq_bind, bind_some, if_neg hsome]
  cases askPlan inet env plan sweep <;> rfl

theorem Youngest.ne_nil (hyoungest : Youngest arena max now keys) (hmax : max ≠ 0)
    (hentries : arena.entries ≠ 0) : keys ≠ [] := by
  have hlength := hyoungest.length
  rintro rfl
  rw [length_nil] at hlength
  omega

theorem takeRetries_lost {retry : List Key} (hlost : ∀ key ∈ retry, contains arena key.1 key.2 = false)
    {batch : Nat} (hbatch : batch ≠ 0) : takeRetries arena batch [] retry = ([], []) := by
  induction retry with
  | nil => rfl
  | cons item rest ih =>
    obtain ⟨hitem, hrest⟩ := forall_mem_cons.mp hlost
    rw [takeRetries, length_nil, if_pos (Nat.pos_of_ne_zero hbatch), hitem]
    exact ih hrest

theorem exists_single_block (htidy : Tidy arena) (hentries : arena.entries ≠ 0)
    (hbatch : arena.entries ≤ settings.batch)
    (hlost : ∀ key ∈ pending, contains arena key.1 key.2 = false)
    (inet : Inet) (env : Environment) (time : Nat) :
    ∃ later returned, runBlocks inet settings env 1 1 pending ⟨arena, [], time, [], 0, 0, 0⟩ =
        some (later, returned) ∧
      (returned = false ∧ (∀ key, (arena.recordOf key).isSome → later.asked.count key = 1) ∨
        Disturbed env later.looks later.stops) := by
  have hroom : settings.batch ≠ 0 := by omega
  let first : Sweep := ⟨arena, [], time, [], 0, 0, 0⟩
  cases hlook : env.enabled 0 with
  | false =>
    refine ⟨first.look, false, ?_, .inr (.inl ⟨0, Nat.one_pos, hlook⟩)⟩
    rw [runBlocks, if_pos hlook]
  | true =>
    obtain ⟨keys, holdest, hyoungest⟩ := oldestEntries_youngest htidy.wellFormed settings.batch (nowMs time)
    have hnone : first.look.pending = [] := rfl
    have hlooked : Tidy first.look.arena := htidy
    have hblock := runBlock_eq inet env 0 1 hnone hroom holdest (hyoungest.ne_nil hroom hentries)
    obtain ⟨later, returned, hask, hend⟩ := exists_askPlan hlooked inet env keys
    have hasked : (∀ key, (arena.recordOf key).isSome → (first.look.asked ++ keys).count key = 1) :=
      fun key hkey ↦ count_eq_one_of_mem hyoungest.nodup (hyoungest.all hbatch key hkey)
    have hretries : takeRetries first.arena settings.batch [] pending = ([], []) :=
      takeRetries_lost hlost hroom
    have hrun : runBlocks inet settings env 1 1 pending first = some (later, returned) := by
      rw [runBlocks, if_neg (by simp [first, hlook]), hretries]
      simp only [hblock, hask, map_some, bind_eq_bind, bind_some]
      cases returned <;> rfl
    refine ⟨later, returned, hrun, hend.imp_left fun hdone ↦ ⟨hdone.2, ?_⟩⟩
    rwa [hdone.1]

theorem Arena.entries_ne_zero (htidy : Tidy arena) (hkey : (arena.recordOf key).isSome) :
    arena.entries ≠ 0 := by
  obtain ⟨record, hrecord⟩ := isSome_iff_exists.mp hkey
  obtain ⟨index, hchained, -, -⟩ := htidy.wellFormed.recordOf_eq_some.mp hrecord
  obtain ⟨members, -, hmembers, hentries⟩ := htidy.wellFormed.exists_members
  rw [hentries]
  exact (length_pos_of_mem ((hmembers index).mp hchained)).ne'

theorem Refreshes.isSome (hrefreshes : Refreshes now keys arena arena')
    (hkey : (arena.recordOf key).isSome) : (arena'.recordOf key).isSome := by
  obtain ⟨record, hrecord⟩ := isSome_iff_exists.mp hkey
  obtain ⟨record', hrecord', -⟩ := hrefreshes.stored key record hrecord
  rw [hrecord', isSome_some]

theorem storedMs_of_ageOf {record record' : Node} (hage : ageOf now record = ageOf now record') :
    record.storedMs = record'.storedMs := by
  have helapsed : now - record.storedMs = now - record'.storedMs := UInt32.toNat_inj.mp hage
  exact (UInt32.sub_right_inj now).mp helapsed

theorem exists_asked_again {more : List Key} (hdistinct : DistinctTimes arena) (hmax : max ≠ 0)
    (hfirst : Youngest arena max now keys) (hkeys : keys ≠ []) (hrefreshes : Refreshes now keys arena arena')
    (hsecond : Youngest arena' max now more) : ∃ key, key ∈ keys ∧ key ∈ more := by
  obtain ⟨kept, hkept⟩ := exists_mem_of_ne_nil keys hkeys
  obtain ⟨record, hrecord⟩ := isSome_iff_exists.mp (hfirst.recorded kept hkept)
  obtain ⟨refreshed, hrefreshed, hstamp⟩ := hrefreshes.stored kept record hrecord
  have hentries := Arena.entries_ne_zero hrefreshes.tidy (hrefreshes.isSome (hfirst.recorded kept hkept))
  obtain ⟨other, hother⟩ := exists_mem_of_ne_nil more (hsecond.ne_nil hmax hentries)
  by_contra hnone
  push Not at hnone
  have hfresh : other ∉ keys := fun hmem ↦ hnone other hmem hother
  obtain ⟨late, hlate⟩ := isSome_iff_exists.mp (hsecond.recorded other hother)
  have hbefore : arena.recordOf other = some late := by rw [← hrefreshes.others other hfresh, hlate]
  have hyounger : ageOf now refreshed ≤ ageOf now record := by
    rcases hstamp with hsame | hnow
    · rw [ageOf, ageOf, hsame]
    · rw [ageOf, hnow, elapsedMs, UInt32.sub_self]
      exact Nat.zero_le _
  have hages : ageOf now record = ageOf now late := by
    apply le_antisymm (hfirst.younger kept hkept other hfresh record late hrecord hbefore)
    calc
      ageOf now late ≤ ageOf now refreshed :=
        hsecond.younger other hother kept (hnone kept hkept) late refreshed hlate hrefreshed
      _ ≤ ageOf now record := hyounger
  exact hfresh (hdistinct kept other record late hrecord hbefore (storedMs_of_ageOf hages) ▸ hkept)

theorem pauseFor_asked (env : Environment) (seconds : Nat) (sweep : Sweep) :
    (pauseFor env seconds sweep).1.asked = sweep.asked := by
  induction seconds generalizing sweep with
  | zero => rfl
  | succ seconds ih =>
    rw [pauseFor]
    split_ifs
    · rfl
    · rfl
    · exact ih _

theorem afterPlan_asked (settings : Settings) (env : Environment) (block blocks : Nat)
    (asked : Sweep × Bool) :
    (afterPlan settings env block blocks asked).1.asked = asked.1.asked := by
  obtain ⟨sweep, returned⟩ := asked
  cases returned with
  | true => rfl
  | false =>
    have hpause := pauseFor_asked env settings.pauseSec sweep
    rcases hpaused : pauseFor env settings.pauseSec sweep with ⟨later, returned⟩
    rw [hpaused] at hpause
    simp only [afterPlan, hpaused]
    split_ifs
    · cases returned <;> exact hpause
    · rfl

variable {later : Sweep}

theorem asked_ask {item : Key} (hask : ask inet env sweep item = some later) :
    sweep.asked <+: later.asked := by
  simp only [ask] at hask
  split_ifs at hask
  · obtain ⟨arena', -, rfl⟩ := map_eq_some_iff.mp hask
    exact prefix_append _ _
  · cases hask
    exact prefix_append _ _

theorem asked_askPlan {returned : Bool}
    (hask : askPlan inet env plan sweep = some (later, returned)) : sweep.asked <+: later.asked := by
  induction plan generalizing sweep with
  | nil =>
    cases hask
    exact prefix_refl _
  | cons item rest ih =>
    rw [askPlan] at hask
    split_ifs at hask with hlook
    · cases hask
      exact prefix_refl _
    · obtain ⟨middle, hfirst, hrest⟩ := bind_eq_some_iff.mp hask
      have hmiddle : sweep.look.asked <+: middle.asked := asked_ask hfirst
      split_ifs at hrest with hstop
      · cases hrest
        exact hmiddle
      · have hlast : middle.stopIfAsked.asked <+: later.asked := ih hrest
        exact hmiddle.trans hlast

theorem asked_runBlock {block blocks : Nat} {taken : List Key} {flow : Flow}
    (hblock : runBlock inet settings env block blocks taken sweep = some (later, flow)) :
    sweep.asked <+: later.asked := by
  obtain ⟨plan, -, hrest⟩ := bind_eq_some_iff.mp hblock
  split_ifs at hrest with hempty
  · cases hrest
    exact prefix_refl _
  · obtain ⟨⟨middle, returned⟩, hask, hafter⟩ := bind_eq_some_iff.mp hrest
    have hasked := afterPlan_asked settings env block blocks (middle, returned)
    rw [Option.some.inj hafter] at hasked
    rw [hasked]
    exact asked_askPlan hask

theorem asked_runBlocks {blocks left : Nat} {retry : List Key} {returned : Bool}
    (hrun : runBlocks inet settings env blocks left retry sweep = some (later, returned)) :
    sweep.asked <+: later.asked := by
  induction left generalizing retry sweep with
  | zero =>
    cases hrun
    exact prefix_refl _
  | succ left ih =>
    rw [runBlocks] at hrun
    split_ifs at hrun with hlook
    · cases hrun
      exact prefix_refl _
    · obtain ⟨⟨middle, flow⟩, hblock, hrest⟩ := bind_eq_some_iff.mp hrun
      have hmiddle : sweep.look.asked <+: middle.asked := asked_runBlock hblock
      cases flow with
      | next => exact hmiddle.trans (ih hrest)
      | leave =>
        cases hrest
        exact hmiddle
      | returned =>
        cases hrest
        exact hmiddle

/-! ## A sweep that nothing disturbs -/

/-- Upstream answers at once, nobody ends the sweep, and every delay is so late that the 32 bits of the
clock are the same after it. -/
def calm : Environment where
  hasRefresh := true
  registryRoom := true
  reply _ := ⟨true, [[0x31]], 0, 0, 0⟩
  enabled _ := true
  cancelled _ := false
  lateMs _ := UInt32.size - 1000

theorem calm_undisturbed (looks stops : Nat) : ¬Disturbed calm looks stops := by
  rintro (⟨_, -, hoff⟩ | ⟨_, -, hstop⟩)
  · cases hoff
  · cases hstop

theorem nowMs_delay (sweep : Sweep) : nowMs (sweep.delay calm).time = nowMs sweep.time := by
  apply UInt32.toNat_inj.mp
  simp only [nowMs, Sweep.delay, calm, UInt32.toNat_ofNat', UInt32.size]
  omega

theorem pauseFor_calm (seconds : Nat) (sweep : Sweep) :
    ∃ later, pauseFor calm seconds sweep = (later, false) ∧ later.arena = sweep.arena ∧
      later.pending = sweep.pending ∧ nowMs later.time = nowMs sweep.time := by
  induction seconds generalizing sweep with
  | zero => exact ⟨sweep, rfl, rfl, rfl, rfl⟩
  | succ seconds ih =>
    obtain ⟨later, hpause, harena, hpending, htime⟩ := ih (sweep.look.stopIfAsked.delay calm)
    exact ⟨later, hpause, harena, hpending, htime.trans (nowMs_delay _)⟩

theorem ask_calm (inet : Inet) (htidy : Tidy sweep.arena) (hkey : (sweep.arena.recordOf key).isSome) :
    ∃ later, ask inet calm sweep key = some later ∧
      Refreshes (nowMs sweep.time) [key] sweep.arena later.arena ∧
      later.asked = sweep.asked ++ [key] ∧ later.pending = sweep.pending.erase key ∧
      later.time = sweep.time := by
  obtain ⟨arena', hstore, htidy'⟩ := exists_storeInternal htidy inet key ⟨[[0x31]], 0, none⟩ sweep.time 0
  refine ⟨⟨arena', sweep.pending.erase key, sweep.time, sweep.asked ++ [key], sweep.looks, sweep.stops,
    sweep.delays⟩, ?_, refreshes_storeInternal htidy hkey hstore htidy', rfl, rfl, rfl⟩
  simp [ask, calm, hstore, forgetFailed]

theorem askPlan_calm (inet : Inet) (htidy : Tidy sweep.arena)
    (hplan : ∀ key ∈ plan, (sweep.arena.recordOf key).isSome)
    (hpending : sweep.pending = []) :
    ∃ later, askPlan inet calm plan sweep = some (later, false) ∧
      Refreshes (nowMs sweep.time) plan sweep.arena later.arena ∧
      later.asked = sweep.asked ++ plan ∧ later.pending = [] ∧ later.time = sweep.time := by
  induction plan generalizing sweep with
  | nil => exact ⟨sweep, rfl, .refl htidy [], (append_nil _).symm, hpending, rfl⟩
  | cons item rest ih =>
    obtain ⟨hitem, hrest⟩ := forall_mem_cons.mp hplan
    have hlooked : Tidy sweep.look.arena := htidy
    obtain ⟨middle, hask, hfirst, hasked, hmiddle, htime⟩ := ask_calm inet hlooked hitem
    have hrecorded : ∀ key ∈ rest, (middle.stopIfAsked.arena.recordOf key).isSome :=
      fun key hmem ↦ hfirst.isSome (hrest key hmem)
    have hnone : middle.stopIfAsked.pending = [] := by
      change middle.pending = []
      rw [hmiddle]
      change sweep.pending.erase item = []
      rw [hpending, erase_nil]
    have hasking : Tidy middle.stopIfAsked.arena := hfirst.tidy
    obtain ⟨later, hlater, hsecond, hall, hleft, hlast⟩ := ih hasking hrecorded hnone
    refine ⟨later, ?_, ?_, ?_, hleft, hlast.trans htime⟩
    · rw [askPlan, if_neg (by simp [calm])]
      simp only [hask, bind_eq_bind, bind_some]
      rwa [if_neg (by simp [calm])]
    · have hsame : nowMs middle.stopIfAsked.time = nowMs sweep.time := congrArg nowMs htime
      rw [hsame] at hsecond
      exact hfirst.trans hsecond
    · calc
        later.asked = middle.asked ++ rest := hall
        _ = sweep.asked ++ [item] ++ rest := by rw [hasked]; rfl
        _ = sweep.asked ++ item :: rest := by simp

theorem runBlock_calm (inet : Inet) (block blocks : Nat) (htidy : Tidy sweep.arena)
    (hentries : sweep.arena.entries ≠ 0) (hbatch : settings.batch ≠ 0) (hpending : sweep.pending = []) :
    ∃ keys later, Youngest sweep.arena settings.batch (nowMs sweep.time) keys ∧
      runBlock inet settings calm block blocks [] sweep = some (later, .next) ∧
      Refreshes (nowMs sweep.time) keys sweep.arena later.arena ∧
      later.asked = sweep.asked ++ keys ∧ later.pending = [] ∧
      nowMs later.time = nowMs sweep.time := by
  obtain ⟨keys, holdest, hyoungest⟩ :=
    oldestEntries_youngest htidy.wellFormed settings.batch (nowMs sweep.time)
  obtain ⟨asking, hask, hrefreshes, hasked, hnone, htime⟩ :=
    askPlan_calm inet htidy hyoungest.recorded hpending
  have hblock := runBlock_eq inet calm block blocks hpending hbatch holdest
    (hyoungest.ne_nil hbatch hentries)
  rw [hask, map_some] at hblock
  have hafter := afterPlan_asked settings calm block blocks (asking, false)
  obtain ⟨paused, hpause, harena, hpending', htime'⟩ := pauseFor_calm settings.pauseSec asking
  simp only [afterPlan, hpause] at hblock hafter
  split_ifs at hblock hafter
  · refine ⟨keys, paused, hyoungest, hblock, harena ▸ hrefreshes, hafter.trans hasked,
      hpending'.trans hnone, ?_⟩
    rw [htime', htime]
  · exact ⟨keys, asking, hyoungest, hblock, hrefreshes, hasked, hnone, by rw [htime]⟩

theorem two_le_blockCount (hbatch : batch ≠ 0) (hless : batch < records) :
    2 ≤ autoUpdateBlockCount records batch := by
  rw [autoUpdateBlockCount, if_neg (by omega), Nat.le_div_iff_mul_le (Nat.pos_of_ne_zero hbatch)]
  omega

theorem exists_count_two {left : Nat} {returned : Bool} (htidy : Tidy sweep.arena)
    (hdistinct : DistinctTimes sweep.arena) (hentries : sweep.arena.entries ≠ 0)
    (hbatch : settings.batch ≠ 0) (hnothing : sweep.pending = [])
    (hlost : ∀ key ∈ pending, contains sweep.arena key.1 key.2 = false) {blocks : Nat}
    (hrun : runBlocks inet settings calm blocks (left + 2) pending sweep = some (later, returned)) :
    ∃ key, (sweep.arena.recordOf key).isSome ∧ 2 ≤ later.asked.count key := by
  have hlooked : Tidy sweep.look.arena := htidy
  obtain ⟨keys, middle, hyoungest, hfirst, hrefreshes, hasked, hnone, htime⟩ :=
    runBlock_calm inet (blocks - (left + 1 + 1)) blocks hlooked hentries hbatch hnothing
  have hkeys := hyoungest.ne_nil hbatch hentries
  obtain ⟨some, hsome⟩ := exists_mem_of_ne_nil keys hkeys
  have hmiddle := Arena.entries_ne_zero hrefreshes.tidy (hrefreshes.isSome (hyoungest.recorded some hsome))
  have hmiddleTidy : Tidy middle.look.arena := hrefreshes.tidy
  obtain ⟨more, last, hagain, hsecond, -, hall, -, -⟩ :=
    runBlock_calm inet (blocks - (left + 1)) blocks hmiddleTidy hmiddle hbatch hnone
  have hsame : nowMs middle.look.time = nowMs sweep.look.time := htime
  rw [hsame] at hagain
  obtain ⟨key, hkey, htwice⟩ := exists_asked_again hdistinct hbatch hyoungest hkeys hrefreshes hagain
  refine ⟨key, hyoungest.recorded key hkey, ?_⟩
  have hrest : last.asked <+: later.asked := by
    rw [runBlocks, if_neg (by simp [calm]), takeRetries_lost hlost hbatch] at hrun
    simp only [hfirst, bind_eq_bind, bind_some] at hrun
    rw [runBlocks, if_neg (by simp [calm])] at hrun
    simp only [takeRetries, hsecond, bind_eq_bind, bind_some] at hrun
    exact asked_runBlocks hrun
  have hlast : last.asked = sweep.asked ++ keys ++ more := hall.trans (congrArg (· ++ more) hasked)
  have hfirstCount := count_pos_iff.mpr hkey
  have hsecondCount := count_pos_iff.mpr htwice
  calc
    2 ≤ sweep.asked.count key + keys.count key + more.count key := by omega
    _ = last.asked.count key := by rw [hlast, count_append, count_append]
    _ ≤ later.asked.count key := hrest.sublist.count_le key

/-! ## When a sweep covers the cache -/

def switchedOff : Environment := { calm with enabled := fun _ ↦ false }

theorem runBlocks_switchedOff (blocks left : Nat) (retry : List Key) (sweep : Sweep) :
    runBlocks inet settings switchedOff blocks (left + 1) retry sweep = some (sweep.look, false) :=
  rfl

theorem exists_recorded (htidy : Tidy arena) (hentries : arena.entries ≠ 0) :
    ∃ key, (arena.recordOf key).isSome := by
  obtain ⟨members, -, hmembers, hcount⟩ := htidy.wellFormed.exists_members
  rw [hcount] at hentries
  obtain ⟨index, hindex⟩ := exists_mem_of_length_pos (Nat.pos_of_ne_zero hentries)
  refine ⟨(arena.nodes index).key, ?_⟩
  rw [htidy.wellFormed.recordOf_chained ((hmembers index).mpr hindex), isSome_some]

def cacheOf (arena : Arena) : Cache := ⟨some arena, 0, true⟩

section covers

variable {time : Nat}

theorem covers_of_empty (htidy : Tidy arena) (hentries : arena.entries = 0) :
    Covers inet settings arena pending time := by
  intro cache env harena hignore hrefresh hroom
  refine ⟨⟨[], pending, 0, 0, .skipped⟩, ?_, ?_, fun _ _ hkey _ _ ↦ hkey⟩
  · rw [runSweep_started harena hignore hrefresh hroom, if_pos (blockCount_eq_zero_iff.mpr (.inl hentries))]
  · intro _ key hkey
    exact absurd hentries (Arena.entries_ne_zero htidy hkey)

theorem covers_of_single_block (htidy : Tidy arena)
    (hlost : ∀ key ∈ pending, contains arena key.1 key.2 = false)
    (hbatch : arena.entries ≤ settings.batch) : Covers inet settings arena pending time := by
  by_cases hentries : arena.entries = 0
  · exact covers_of_empty htidy hentries
  intro cache env harena hignore hrefresh hroom
  obtain ⟨later, returned, hrun, hend⟩ := exists_single_block htidy hentries hbatch hlost inet env time
  refine ⟨finishSweep env (later, returned), ?_, ?_, ?_⟩
  · rw [runSweep_started harena hignore hrefresh hroom, blockCount_eq_one hentries hbatch,
      if_neg Nat.one_ne_zero, hrun, map_some]
  · intro hcalm
    rcases hend with ⟨rfl, hasked⟩ | hdisturbed
    · exact hasked
    · refine absurd (hdisturbed.mono ?_ ?_) hcalm
      · cases returned
        · exact Nat.le_succ _
        · exact le_rfl
      · cases returned <;> exact le_rfl
  · intro _ key hkey hcontains
    rw [hlost key hkey] at hcontains
    cases hcontains

theorem batch_ne_zero_of_covers (htidy : Tidy arena) (hentries : arena.entries ≠ 0)
    (hcovers : Covers inet settings arena pending time) : settings.batch ≠ 0 := by
  intro hbatch
  obtain ⟨result, hrun, hcalm, -⟩ := hcovers (cacheOf arena) calm rfl rfl rfl rfl
  rw [runSweep_started rfl rfl rfl rfl, if_pos (blockCount_eq_zero_iff.mpr (.inr hbatch))] at hrun
  cases hrun
  obtain ⟨key, hkey⟩ := exists_recorded htidy hentries
  have honce := hcalm (calm_undisturbed _ _) key hkey
  rw [count_nil] at honce
  cases honce

theorem lost_of_covers (hentries : arena.entries ≠ 0) (hbatch : settings.batch ≠ 0)
    (hcovers : Covers inet settings arena pending time) :
    ∀ key ∈ pending, contains arena key.1 key.2 = false := by
  intro key hkey
  by_contra hcontains
  obtain ⟨result, hrun, -, hkept⟩ := hcovers (cacheOf arena) switchedOff rfl rfl rfl rfl
  have hblocks : autoUpdateBlockCount arena.entries settings.batch ≠ 0 := by
    rw [ne_eq, blockCount_eq_zero_iff]
    exact not_or.mpr ⟨hentries, hbatch⟩
  rw [runSweep_started rfl rfl rfl rfl, if_neg hblocks] at hrun
  obtain ⟨left, hleft⟩ := Nat.exists_eq_succ_of_ne_zero hblocks
  rw [hleft, runBlocks_switchedOff, map_some] at hrun
  cases hrun
  exact not_mem_nil
    (hkept (.inl ⟨0, Nat.succ_pos _, rfl⟩) key hkey (eq_true_of_ne_false hcontains) not_mem_nil)

theorem entries_le_of_covers (htidy : Tidy arena) (hdistinct : DistinctTimes arena)
    (hentries : arena.entries ≠ 0) (hbatch : settings.batch ≠ 0)
    (hlost : ∀ key ∈ pending, contains arena key.1 key.2 = false)
    (hcovers : Covers inet settings arena pending time) : arena.entries ≤ settings.batch := by
  by_contra hmore
  have hblocks := two_le_blockCount hbatch (Nat.lt_of_not_le hmore)
  obtain ⟨result, hrun, hcalm, -⟩ := hcovers (cacheOf arena) calm rfl rfl rfl rfl
  rw [runSweep_started rfl rfl rfl rfl, if_neg (by omega)] at hrun
  obtain ⟨⟨later, returned⟩, hblocksRun, rfl⟩ := map_eq_some_iff.mp hrun
  obtain ⟨left, hleft⟩ := Nat.exists_eq_add_of_le' hblocks
  have hfirst : Tidy (Sweep.arena ⟨arena, [], time, [], 0, 0, 0⟩) := htidy
  rw [hleft] at hblocksRun
  obtain ⟨key, hkey, htwice⟩ := exists_count_two hfirst hdistinct hentries hbatch rfl hlost hblocksRun
  have honce : later.asked.count key = 1 := by
    have hcount := hcalm (calm_undisturbed _ _) key hkey
    cases returned <;> exact hcount
  omega

end covers

/-- A sweep covers the cache exactly when the cache is empty, or fits into one block and none of its
records is pending. -/
theorem covers_iff (inet : Inet) (settings : Settings) (pending : List Key) (time : Nat)
    (htidy : Tidy arena) (hdistinct : DistinctTimes arena) :
    Covers inet settings arena pending time ↔ arena.entries = 0 ∨
        (∀ key ∈ pending, contains arena key.1 key.2 = false) ∧ arena.entries ≤ settings.batch := by
  constructor
  · intro hcovers
    by_cases hentries : arena.entries = 0
    · exact .inl hentries
    have hbatch := batch_ne_zero_of_covers htidy hentries hcovers
    have hlost := lost_of_covers hentries hbatch hcovers
    exact .inr ⟨hlost, entries_le_of_covers htidy hdistinct hentries hbatch hlost hcovers⟩
  · rintro (hentries | ⟨hlost, hbatch⟩)
    · exact covers_of_empty htidy hentries
    · exact covers_of_single_block htidy hlost hbatch

/-- Upstream answers within 20 ms, nobody ends the sweep, and no delay is late. -/
def sampleEnvironment : Environment where
  hasRefresh := true
  registryRoom := true
  reply _ := ⟨true, [sampleText], 60, 20, 0⟩
  enabled _ := true
  cancelled _ := false
  lateMs _ := 0

theorem exists_two_records :
    ∃ cache arena, sampleCache = some cache ∧ cache.arena = some arena ∧ cache.ignoreTtl ∧
      Tidy arena ∧ DistinctTimes arena ∧ arena.entries = 2 ∧ (arena.recordOf laterKey).isSome ∧
      contains arena sampleKey.1 sampleKey.2 := by
  have hready : (sampleCache.map Cache.ignoreTtl) = some true := by decide +kernel
  have hbuilt : (sampleCache.bind Cache.arena).isSome := by decide +kernel
  have hentries : (sampleCache.bind Cache.arena).map Arena.entries = some 2 := by decide +kernel
  have hkeys : (sampleCache.bind Cache.arena).bind (oldestEntries · 2 (isPending []) 60000) =
      some [sampleKey, laterKey] := by decide +kernel
  have hstored : (sampleCache.bind Cache.arena).map (fun arena ↦
      [sampleKey, laterKey].map fun key ↦ (arena.recordOf key).map Node.storedMs) =
        some [some 1000, some 4000] := by decide +kernel
  have hfound : (sampleCache.bind Cache.arena).map (fun arena ↦ contains arena sampleKey.1 sampleKey.2) =
      some true := by decide +kernel
  obtain ⟨cache, hcache, hignore⟩ := map_eq_some_iff.mp hready
  rw [hcache, bind_some] at hbuilt hentries hkeys hstored hfound
  obtain ⟨arena, harena⟩ := isSome_iff_exists.mp hbuilt
  rw [harena] at hentries hkeys hstored hfound
  have htidy : Tidy arena := tidy_of_steps hcache arena harena
  have hcount : arena.entries = 2 := Option.some.inj hentries
  obtain ⟨hsample, hlater⟩ : (arena.recordOf sampleKey).map Node.storedMs = some 1000 ∧
      (arena.recordOf laterKey).map Node.storedMs = some 4000 := by simpa using hstored
  refine ⟨cache, arena, hcache, harena, hignore, htidy, ?_, hcount, ?_, Option.some.inj hfound⟩
  · have hlisted : ∀ key record, arena.recordOf key = some record →
        key = sampleKey ∧ record.storedMs = 1000 ∨ key = laterKey ∧ record.storedMs = 4000 := by
      intro key record hrecord
      have hmem := recorded_mem htidy.wellFormed hkeys hcount.le
        (isSome_of_eq_some hrecord)
      rcases mem_pair.mp hmem with rfl | rfl
      · rw [hrecord] at hsample
        exact .inl ⟨rfl, Option.some.inj hsample⟩
      · rw [hrecord] at hlater
        exact .inr ⟨rfl, Option.some.inj hlater⟩
    intro key other record record' hrecord hrecord' htimes
    rcases hlisted key record hrecord with ⟨rfl, hearly⟩ | ⟨rfl, hlate⟩ <;>
      rcases hlisted other record' hrecord' with ⟨rfl, hearly'⟩ | ⟨rfl, hlate'⟩
    · rfl
    · rw [hearly, hlate'] at htimes
      cases htimes
    · rw [hlate, hearly'] at htimes
      cases htimes
    · rfl
  · obtain ⟨record, hrecord, -⟩ := map_eq_some_iff.mp hlater
    exact isSome_of_eq_some hrecord

/-- Both records fit into one block. -/
theorem covers_two_records : ∃ cache arena, sampleCache = some cache ∧ cache.arena = some arena ∧
      Covers sampleInet ⟨2, 60⟩ arena [] 60000 := by
  obtain ⟨cache, arena, hcache, harena, -, htidy, hdistinct, hentries, -, -⟩ := exists_two_records
  refine ⟨cache, arena, hcache, harena, ?_⟩
  exact (covers_iff sampleInet ⟨2, 60⟩ [] 60000 htidy hdistinct).mpr (.inr ⟨by simp, hentries.le⟩)

/-- In blocks of one the younger record is asked for twice, the older one never; and a record that was
pending is forgotten when the update is switched off at once. -/
theorem younger_asked_twice :
    ∃ cache arena, sampleCache = some cache ∧ cache.arena = some arena ∧ DistinctTimes arena ∧
      (∃ result, runSweep sampleInet ⟨1, 60⟩ sampleEnvironment cache [] 60000 = some result ∧
        result.asked = [laterKey, laterKey]) ∧
      ¬Covers sampleInet ⟨1, 60⟩ arena [] 60000 ∧
      (∃ result, runSweep sampleInet ⟨2, 60⟩ switchedOff cache [sampleKey] 60000 = some result ∧
        result.asked = [] ∧ result.pending = []) ∧
      ¬Covers sampleInet ⟨2, 60⟩ arena [sampleKey] 60000 := by
  obtain ⟨cache, arena, hcache, harena, hignore, -, hdistinct, hentries, hrecorded, hfound⟩ :=
    exists_two_records
  have htwice : (sampleCache.bind (runSweep sampleInet ⟨1, 60⟩ sampleEnvironment · [] 60000)).map
      Result.asked = some [laterKey, laterKey] := by decide +kernel
  have hlost : (sampleCache.bind (runSweep sampleInet ⟨2, 60⟩ switchedOff · [sampleKey] 60000)).map
      (fun result ↦ (result.asked, result.pending)) = some ([], []) := by decide +kernel
  rw [hcache, bind_some] at htwice hlost
  obtain ⟨result, hrun, hasked⟩ := map_eq_some_iff.mp htwice
  obtain ⟨ended, hended, hnothing⟩ := map_eq_some_iff.mp hlost
  obtain ⟨hnone, hforgotten⟩ := Prod.mk.inj hnothing
  refine ⟨cache, arena, hcache, harena, hdistinct, ⟨result, hrun, hasked⟩, ?_,
    ⟨ended, hended, hnone, hforgotten⟩, ?_⟩
  · intro hcovers
    obtain ⟨same, hsame, hcalm, -⟩ := hcovers cache sampleEnvironment harena hignore rfl rfl
    obtain rfl := mem_unique hrun hsame
    have hundisturbed : ¬Disturbed sampleEnvironment result.looks result.stops := by
      rintro (⟨_, -, hoff⟩ | ⟨_, -, hstop⟩)
      · cases hoff
      · cases hstop
    have honce := hcalm hundisturbed laterKey hrecorded
    rw [hasked] at honce
    exact absurd honce (by decide)
  · intro hcovers
    have hbatch : Settings.batch ⟨2, 60⟩ ≠ 0 := by decide
    have hgone := lost_of_covers (by omega) hbatch hcovers sampleKey mem_cons_self
    rw [hfound] at hgone
    cases hgone

end DhcpServer.Dns.CacheAutoUpdate
