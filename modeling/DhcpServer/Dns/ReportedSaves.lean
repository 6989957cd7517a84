import DhcpServer.Dns.CacheChecksum
import DhcpServer.Dns.FailingSaves
import DhcpServer.Dns.ReaderAgreement

/-!
# What a reported save has written

A save that fails says so, with one exception: where the seek back to the count fails, the count is not
written, the header goes on promising no records, and the save goes on as if it had been. Everything else
that fails is answered `false` and leaves the old file, or the complete new one in the part.
-/

namespace DhcpServer.Dns.FailingSaves

open Library Core.AtomicFile
open InternalCache (Arena Node Inet Cache Sane Tidy Storable kTypeA sampleInet sampleText sane_of_named
  tidy_of_steps)
open CacheFile List Option Function

variable {env : Environment} {loop : Loop} {source : Source} {kept : List Nat} {path : Bytes}
  {storage : Storage} {saved : Saved}

structure Arrives (env : Environment) (source : Source) (path : Bytes) (kept : List Nat) : Prop where
  path : path ≠ []
  snapshot : source.arena.bind (snapshot source.ignoreTtl source.listedMs) = some kept
  listed : kept ≠ []
  allocates : source.allocates = true
  opens : env.opens = true
  takes : TakesAll env source kept
  closes : env.closes = true
  partReads : env.partReads = true
  removes : env.removes = true

structure GaveUp (path : Bytes) (storage : Storage) (saved : Saved) : Prop where
  returned : saved.returned = false
  failed : saved.failed ≠ some .rename
  storage : saved.storage path = storage path

/-- What is left when it does not: the part is in the place of the old file, or neither is there. -/
structure CameThrough (env : Environment) (source : Source) (path : Bytes) (kept : List Nat) (saved : Saved) :
    Prop where
  returned : saved.returned = env.renames
  renamed : env.renames = true → saved.entriesWritten = recordCount source kept ∧
    saved.storage path = some (if env.seeks then newFile source kept else unpatched source kept)
  kept : env.renames = false → saved.failed = some .rename ∧ saved.storage path = none ∧
    saved.storage (partPath path) =
      some (if env.seeks then newFile source kept else unpatched source kept)

theorem closeAndPublish_spec (hstreamed : Streamed env source kept (partPath path) storage loop) :
    (TakesAll env source kept ∧ env.closes ∧ env.partReads ∧ env.removes →
      CameThrough env source path kept (closeAndPublish env path loop)) ∧
    (¬(TakesAll env source kept ∧ env.closes ∧ env.partReads ∧ env.removes) →
      GaveUp path storage (closeAndPublish env path loop)) := by
  have hother : path ≠ partPath path := (partPath_ne path).symm
  have holdest := hstreamed.other path hother
  by_cases hclosed : loop.ok = true ∧ env.closes = true
  · obtain ⟨hok, hcloses⟩ := hclosed
    have htakes := hstreamed.ok_iff.mp hok
    have hpart := hstreamed.content hok
    have hreadable : readable loop.stream.storage (partPath path) := by
      rw [readable, hpart, isSome_some]
    have hcondition : ¬(!true || !true) := by decide
    rw [closeAndPublish, hok, hcloses, if_neg hcondition, publish, hreadable]
    cases hreads : env.partReads with
    | false =>
      refine ⟨fun h ↦ absurd h.2.2.1 Bool.false_ne_true, fun _ ↦ ⟨rfl, by simp, holdest⟩⟩
    | true =>
      cases hremoves : env.removes with
      | false =>
        refine ⟨fun h ↦ absurd h.2.2.2 Bool.false_ne_true, fun _ ↦ ⟨rfl, by simp, holdest⟩⟩
      | true =>
        refine ⟨fun _ ↦ ?_, fun h ↦ absurd ⟨htakes, rfl, rfl, rfl⟩ h⟩
        have hremoved := removed_part hpart
        have hgone := removed_path path loop.stream.storage
        cases hrenames : env.renames with
        | false =>
          refine ⟨hrenames.symm, fun h ↦ ?_, fun _ ↦ ⟨rfl, hgone, hremoved⟩⟩
          exact absurd (hrenames.symm.trans h) Bool.false_ne_true
        | true =>
          refine ⟨hrenames.symm, fun _ ↦ ⟨hstreamed.written hok, ?_⟩, fun h ↦ ?_⟩
          · exact rename_published hremoved hgone
          · exact absurd (hrenames.symm.trans h) Bool.noConfusion
  · have hfailed : closeAndPublish env path loop =
        { storage := if env.partRemoves then (Call.remove (partPath path)).apply loop.stream.storage
            else loop.stream.storage
          returned := false
          failed := some (if loop.ok then .fclose else .fwrite) } := by
      have hcondition : (!loop.ok || !env.closes) := by
        rw [← Bool.not_and, Bool.not_eq_true']
        exact Bool.eq_false_iff.mpr fun h ↦ hclosed ((Bool.and_eq_true _ _).mp h)
      rw [closeAndPublish, if_pos hcondition]
    rw [hfailed]
    refine ⟨fun h ↦ absurd ⟨hstreamed.ok_iff.mpr h.1, h.2.1⟩ hclosed, fun _ ↦ ⟨rfl, ?_, ?_⟩⟩
    · dsimp only
      split <;> simp
    · dsimp only
      split
      · rw [Call.apply, update_of_ne hother, holdest]
      · exact holdest

theorem saveToFile_opened {arena : Arena}
    (hpath : path ≠ []) (harena : source.arena = some arena)
    (hsnapshot : snapshot source.ignoreTtl source.listedMs arena = some kept) (hkept : kept ≠ [])
    (hallocates : source.allocates) (hopens : env.opens) (storage : Storage) :
    ∃ saved, saveToFile env source path storage = some saved ∧
      (TakesAll env source kept ∧ env.closes ∧ env.partReads ∧ env.removes →
        CameThrough env source path kept saved) ∧
      (¬(TakesAll env source kept ∧ env.closes ∧ env.partReads ∧ env.removes) →
        GaveUp path storage saved) := by
  have hother : path ≠ partPath path := (partPath_ne path).symm
  let created := (Call.create (partPath path)).apply storage
  have hcreated : created (partPath path) = some [] := update_self _ _ _
  have holdest : created path = storage path := update_of_ne hother _ _
  have hheader := wrote_fwrite env (partPath path) ⟨created, 0⟩ (headerBytes 0)
  have hnoPath : path.isEmpty = false := isEmpty_eq_false_iff.mpr hpath
  have hnoKept : kept.isEmpty = false := isEmpty_eq_false_iff.mpr hkept
  have hsave : saveToFile env source path storage =
      some (if !(Stream.fwrite env (partPath path) ⟨created, 0⟩ (headerBytes 0)).2 then
        { storage := (Stream.fwrite env (partPath path) ⟨created, 0⟩ (headerBytes 0)).1.storage
          returned := false
          failed := some .fwrite }
      else closeAndPublish env path (patchCount env (partPath path)
        (writeNodes env (partPath path) source.ignoreTtl source.now (copies source kept)
          ⟨(Stream.fwrite env (partPath path) ⟨created, 0⟩ (headerBytes 0)).1, true, 0⟩))) := by
    simp only [saveToFile, hnoPath, harena, hsnapshot, hnoKept, hallocates, hopens,
      bind_eq_bind, bind_some, Bool.false_eq_true, Bool.not_true, if_false]
    split <;> rfl
  generalize Stream.fwrite env (partPath path) ⟨created, 0⟩ (headerBytes 0) = first at hheader hsave
  obtain ⟨stream, whole⟩ := first
  refine ⟨_, hsave, ?_⟩
  cases whole with
  | false =>
    refine ⟨fun htakes ↦ ?_, fun _ ↦ ⟨rfl, by simp, ?_⟩⟩
    · have hstopped := hheader.stop (nodeChunks source.ignoreTtl source.now (copies source kept))
      exact absurd (hstopped.whole_iff.mpr htakes.1.1) Bool.false_ne_true
    · exact (hheader.other path hother).trans holdest
  | true =>
    have hlooped : Looped env (partPath path) source.ignoreTtl source.now (copies source kept)
        ⟨stream, true, 0⟩ _ :=
      looped_writeNodes env (partPath path) source.ignoreTtl source.now (copies source kept) rfl
    have hstreamed := streamed_patchCount hcreated (hheader.append hlooped.wrote) fun hok ↦ by
      rw [hlooped.written hok, Nat.zero_add]
      rfl
    obtain ⟨hcame, hgave⟩ := closeAndPublish_spec hstreamed
    refine ⟨hcame, fun hfails ↦ ?_⟩
    have hend := hgave hfails
    exact ⟨hend.returned, hend.failed, hend.storage.trans holdest⟩

theorem spec_of_early (hsave : saveToFile env source path storage = some saved)
    (hreturned : saved.returned = false) (hfailed : saved.failed ≠ some .rename)
    (hstorage : saved.storage = storage) (hnever : ∀ kept, ¬Arrives env source path kept) :
    ∃ saved, saveToFile env source path storage = some saved ∧
      (∀ kept, Arrives env source path kept → CameThrough env source path kept saved) ∧
      ((∀ kept, ¬Arrives env source path kept) → GaveUp path storage saved) := by
  refine ⟨saved, hsave, fun kept harrives ↦ absurd harrives (hnever kept), fun _ ↦ ?_⟩
  exact ⟨hreturned, hfailed, by rw [hstorage]⟩

theorem saveToFile_spec (env : Environment) (source : Source)
    (hlists : ∀ arena, source.arena = some arena →
      ∃ kept, snapshot source.ignoreTtl source.listedMs arena = some kept)
    (path : Bytes) (storage : Storage) :
    ∃ saved, saveToFile env source path storage = some saved ∧
      (∀ kept, Arrives env source path kept → CameThrough env source path kept saved) ∧
      ((∀ kept, ¬Arrives env source path kept) → GaveUp path storage saved) := by
  by_cases hpath : path = []
  · have hsave : saveToFile env source path storage = some { storage, returned := false } := by
      simp [saveToFile, hpath]
    exact spec_of_early hsave rfl (by simp) rfl fun kept harrives ↦ harrives.path hpath
  have hnoPath : path.isEmpty = false := isEmpty_eq_false_iff.mpr hpath
  cases harena : source.arena with
  | none =>
    have hsave : saveToFile env source path storage = some { storage, returned := false } := by
      simp [saveToFile, hnoPath, harena]
    refine spec_of_early hsave rfl (by simp) rfl fun kept harrives ↦ ?_
    have hlisted := harrives.snapshot
    rw [harena] at hlisted
    cases hlisted
  | some arena =>
    obtain ⟨kept, hsnapshot⟩ := hlists arena harena
    have hlisted (other : List Nat) (harrives : Arrives env source path other) : other = kept := by
      have hother := harrives.snapshot
      rw [harena, bind_some, hsnapshot] at hother
      exact (Option.some.inj hother).symm
    by_cases hkept : kept = []
    · have hsave : saveToFile env source path storage =
          some { storage, returned := false, nothingToSave := true } := by
        simp [saveToFile, hnoPath, harena, hsnapshot, hkept]
      refine spec_of_early hsave rfl (by simp) rfl fun other harrives ↦ ?_
      exact harrives.listed ((hlisted other harrives).trans hkept)
    have hnoKept : kept.isEmpty = false := isEmpty_eq_false_iff.mpr hkept
    cases hallocates : source.allocates with
    | false =>
      have hsave : saveToFile env source path storage = some { storage, returned := false } := by
        simp [saveToFile, hnoPath, harena, hsnapshot, hkept, hallocates]
      refine spec_of_early hsave rfl (by simp) rfl fun other harrives ↦ ?_
      exact Bool.false_ne_true (hallocates.symm.trans harrives.allocates)
    | true =>
      cases hopens : env.opens with
      | false =>
        have hsave : saveToFile env source path storage =
            some { storage, returned := false, failed := some .fopen } := by
          simp [saveToFile, hnoPath, harena, hsnapshot, hkept, hallocates, hopens]
        refine spec_of_early hsave rfl (by simp) rfl fun other harrives ↦ ?_
        exact Bool.false_ne_true (hopens.symm.trans harrives.opens)
      | true =>
        obtain ⟨saved, hsave, hcame, hgave⟩ :=
          saveToFile_opened hpath harena hsnapshot hkept hallocates hopens storage
        refine ⟨saved, hsave, fun other harrives ↦ ?_, fun hnever ↦ hgave fun hall ↦ ?_⟩
        · obtain rfl := hlisted other harrives
          exact hcame ⟨harrives.takes, harrives.closes, harrives.partReads, harrives.removes⟩
        · obtain ⟨htakes, hcloses, hreads, hremoves⟩ := hall
          refine hnever kept ⟨hpath, ?_, hkept, hallocates, hopens, htakes, hcloses, hreads, hremoves⟩
          rw [harena, bind_some, hsnapshot]

/-! ## The two files -/

def Made (inet : Inet) (arena : Arena) : Prop :=
  ∃ built calls cache, steps (Cache.step inet) (Cache.initial built) calls = some cache ∧
    cache.arena = some arena

theorem Made.tidy {inet : Inet} {arena : Arena} (hmade : Made inet arena) : Tidy arena := by
  obtain ⟨built, calls, cache, hcalls, harena⟩ := hmade
  exact tidy_of_steps hcalls arena harena

theorem Made.sane {inet : Inet} {arena : Arena} (hmade : Made inet arena) (index : Nat)
    (hname : (arena.nodes index).name ≠ []) : Sane (arena.nodes index) := by
  obtain ⟨built, calls, cache, hcalls, harena⟩ := hmade
  exact sane_of_named hcalls arena harena index hname

/-- Everything a save reads of the cache it reads of caches as calls can make them. -/
structure Source.Sound (inet : Inet) (source : Source) : Prop where
  arena : ∀ arena, source.arena = some arena → Made inet arena
  later : ∀ number, Made inet (source.later number)

namespace Source.Sound

variable {inet : Inet}

theorem exists_snapshot (hsound : source.Sound inet) {arena : Arena} (harena : source.arena = some arena) :
    ∃ kept, snapshot source.ignoreTtl source.listedMs arena = some kept ∧
      kept.length ≤ InternalCache.kMaxNodes := by
  have htidy := (hsound.arena arena harena).tidy
  obtain ⟨kept, hsnapshot, -, -, hlength⟩ := snapshot_spec htidy.wellFormed source.ignoreTtl source.listedMs
  exact ⟨kept, hsnapshot, hlength.trans htidy.nodeCount_le⟩

theorem check_newFile (hsound : source.Sound inet)
    (hsnapshot : source.arena.bind (snapshot source.ignoreTtl source.listedMs) = some kept) :
    check (some (newFile source kept)) (recordCount source kept) := by
  let run : SaveRun := ⟨source.ignoreTtl, source.now, copies source kept⟩
  have hrun : run.FromCache := by
    constructor
    · intro node hnode hwrites
      obtain ⟨number, hnumber, rfl⟩ := mem_mapIdx.mp hnode
      apply (hsound.later number).sane
      intro hempty
      simp [writesNode, hempty] at hwrites
    · obtain ⟨arena, harena, hkept⟩ := bind_eq_some_iff.mp hsnapshot
      obtain ⟨same, hsame, hlength⟩ := hsound.exists_snapshot harena
      obtain rfl := mem_unique hkept hsame
      change (List.mapIdx _ kept).length ≤ _
      rw [length_mapIdx]
      exact hlength
  exact hrun.checks

end Source.Sound

theorem read_unpatched (hsome : 0 < recordCount source kept) :
    (read (some (unpatched source kept))).status = .trailingBytes := by
  let empty : WellFormedFile :=
    { version := kVersion, reserved := putU32 0, pieces := [], version_ge := by decide,
      version_le := by decide, reserved_length := rfl, count_le := Nat.zero_le _ }
  obtain ⟨node, hnode⟩ := exists_mem_of_length_pos hsome
  have hrest : (((copies source kept).filter writesNode).flatMap
      (recordBytes source.ignoreTtl source.now)).isEmpty = false := by
    rw [isEmpty_eq_false_iff]
    intro hempty
    have hnothing := flatMap_eq_nil_iff.mp hempty node hnode
    simp [recordBytes] at hnothing
  have hbytes : unpatched source kept = empty.bytes ++
      ((copies source kept).filter writesNode).flatMap (recordBytes source.ignoreTtl source.now) := rfl
  rw [hbytes, read_bytes, hrest]
  rfl

theorem unpatched_eq_newFile (hnone : recordCount source kept = 0) :
    unpatched source kept = newFile source kept := by
  rw [← patch_unpatched, hnone]
  have hpatch := patch_headerBytes 0
    (((copies source kept).filter writesNode).flatMap (recordBytes source.ignoreTtl source.now))
  exact hpatch.symm

/-- What a save that returns promises: reported, the file can be read and holds what was written; not
reported, the old file is there, or after a failed renaming the complete new one in the part. -/
structure Truthful (source : Source) (path : Bytes) (storage : Storage) (saved : Saved) : Prop where
  reported : saved.returned = true → ∃ content, saved.storage path = some content ∧
    (read (some content)).status = .ok ∧ (read (some content)).records.length = saved.entriesWritten
  kept : saved.returned = false → saved.failed ≠ some .rename → saved.storage path = storage path
  unnamed : saved.returned = false → saved.failed = some .rename → saved.storage path = none ∧
      ∃ kept, source.arena.bind (snapshot source.ignoreTtl source.listedMs) = some kept ∧
        saved.storage (partPath path) = some (newFile source kept)

/-- The seek back to the count fails in a save with records, and no other call up to the renaming. -/
def LosesCount (env : Environment) (source : Source) (path : Bytes) : Prop :=
  ∃ kept, Arrives env source path kept ∧ env.seeks = false ∧
    ∃ node ∈ copies source kept, writesNode node = true

theorem recordCount_pos_iff :
    0 < recordCount source kept ↔ ∃ node ∈ copies source kept, writesNode node := by
  rw [recordCount, length_pos_iff_exists_mem]
  simp only [mem_filter]

theorem CameThrough.truthful {inet : Inet} (hcame : CameThrough env source path kept saved)
    (hsound : source.Sound inet) (harrives : Arrives env source path kept)
    (hpart : (if env.seeks then newFile source kept else unpatched source kept) = newFile source kept) :
    Truthful source path storage saved := by
  obtain ⟨hreturned, hrenamed, hkept⟩ := hcame
  rw [hpart] at hrenamed hkept
  constructor
  · intro hreported
    obtain ⟨hwritten, hcontent⟩ := hrenamed (hreturned.symm.trans hreported)
    have hcheck := check_iff.mp (hsound.check_newFile harrives.snapshot)
    exact ⟨_, hcontent, hcheck.1, hcheck.2.trans hwritten.symm⟩
  · intro hfailed hother
    exact absurd (hkept (hreturned.symm.trans hfailed)).1 hother
  · intro hfailed _
    obtain ⟨-, hgone, hleft⟩ := hkept (hreturned.symm.trans hfailed)
    exact ⟨hgone, kept, harrives.snapshot, hleft⟩

theorem CameThrough.not_truthful {inet : Inet} (hcame : CameThrough env source path kept saved)
    (hsound : source.Sound inet) (harrives : Arrives env source path kept) (hseeks : env.seeks = false)
    (hsome : 0 < recordCount source kept) : ¬Truthful source path storage saved := by
  obtain ⟨hreturned, hrenamed, hkept⟩ := hcame
  rw [hseeks, if_neg Bool.false_ne_true] at hrenamed hkept
  have hstatus := read_unpatched hsome
  intro htruthful
  cases hrenames : env.renames with
  | true =>
    obtain ⟨content, hcontent, hok, -⟩ := htruthful.reported (hreturned.trans hrenames)
    obtain rfl := Option.some.inj ((hrenamed hrenames).2.symm.trans hcontent)
    rw [hstatus] at hok
    cases hok
  | false =>
    obtain ⟨hfailed, -, hleft⟩ := hkept hrenames
    obtain ⟨-, same, hsame, hcontent⟩ := htruthful.unnamed (hreturned.trans hrenames) hfailed
    obtain rfl := Option.some.inj (harrives.snapshot.symm.trans hsame)
    have hnew : unpatched source kept = newFile source kept := Option.some.inj (hleft.symm.trans hcontent)
    have hok := (check_iff.mp (hsound.check_newFile harrives.snapshot)).1
    rw [← hnew, hstatus] at hok
    cases hok

/-- Every save returns, and what it has left is as it says exactly if it has not lost the count. -/
theorem truthful_iff (inet : Inet) (env : Environment) (source : Source) (hsound : source.Sound inet)
    (path : Bytes) (storage : Storage) :
    ∃ saved, saveToFile env source path storage = some saved ∧
      (Truthful source path storage saved ↔ ¬LosesCount env source path) := by
  have hlists (arena : Arena) (harena : source.arena = some arena) :
      ∃ kept, snapshot source.ignoreTtl source.listedMs arena = some kept := by
    obtain ⟨kept, hsnapshot, -⟩ := hsound.exists_snapshot harena
    exact ⟨kept, hsnapshot⟩
  obtain ⟨saved, hsave, hcame, hgave⟩ := saveToFile_spec env source hlists path storage
  refine ⟨saved, hsave, ?_⟩
  by_cases harrives : ∃ kept, Arrives env source path kept
  · obtain ⟨kept, harrives⟩ := harrives
    have hend := hcame kept harrives
    constructor
    · rintro htruthful ⟨other, hother, hseeks, hnodes⟩
      exact (hcame other hother).not_truthful hsound hother hseeks (recordCount_pos_iff.mpr hnodes)
        htruthful
    · intro hcount
      apply hend.truthful hsound harrives
      cases hseeks : env.seeks with
      | true => rw [if_pos rfl]
      | false =>
        rw [if_neg Bool.false_ne_true]
        apply unpatched_eq_newFile
        by_contra hsome
        have hnodes := recordCount_pos_iff.mp (Nat.pos_of_ne_zero hsome)
        exact hcount ⟨kept, harrives, hseeks, hnodes⟩
  · have hnever := not_exists.mp harrives
    obtain ⟨hreturned, hfailed, hsame⟩ := hgave hnever
    constructor
    · rintro - ⟨kept, hkept, -⟩
      exact hnever kept hkept
    · intro _
      constructor
      · exact fun hreported ↦ absurd (hreturned.symm.trans hreported) Bool.false_ne_true
      · exact fun _ _ ↦ hsame
      · exact fun _ hrename ↦ absurd hrename hfailed

/-- A volume on which every call succeeds, the seek only if `seeks` says so. -/
def volume (seeks : Bool) : Environment := ⟨true, fun _ ↦ 1000, seeks, true, true, true, true, true⟩

def quiet (arena : Arena) : Source := ⟨some arena, true, true, 0, 0, fun _ ↦ arena⟩

theorem takes_of_forall {room : Nat} {chunks : List Bytes} (hroom : ∀ bytes ∈ chunks, bytes.length ≤ room)
    (number : Nat) : Takes (fun _ ↦ room) chunks number := by
  induction chunks generalizing number with
  | nil => trivial
  | cons bytes others ih =>
    rw [forall_mem_cons] at hroom
    exact ⟨hroom.1, ih hroom.2 (number + 1)⟩

theorem length_recordChunk {node : Node} (hsane : Sane node) (ignoreTtl : Bool) (now : UInt32) :
    ∀ bytes ∈ recordChunks ignoreTtl now node, bytes.length ≤ 1000 := by
  have hname : node.name.length < 127 := hsane.length_lt
  have hfour : ((node.a4.toList.take node.nA).flatMap Vector.toList).length ≤ 1000 := by
    have hsum : ((node.a4.toList.take node.nA).flatMap Vector.toList).length =
        (node.a4.toList.take node.nA).length * 4 := by
      simp [length_flatMap]
    have hroom : (node.a4.toList.take node.nA).length ≤ 16 :=
      (length_take_le' _ _).trans_eq node.a4.length_toList
    omega
  intro bytes hbytes
  simp only [recordChunks, mem_append, mem_cons, not_mem_nil, or_false] at hbytes
  rcases hbytes with ((rfl | rfl | rfl | rfl) | hbytes) | hbytes
  · exact Nat.le_of_ble_eq_true rfl
  · omega
  · exact Nat.le_of_ble_eq_true rfl
  · exact Nat.le_of_ble_eq_true rfl
  · split at hbytes
    · obtain rfl := mem_singleton.mp hbytes
      exact hfour
    · cases hbytes
  · obtain ⟨address, -, rfl⟩ := List.mem_map.mp hbytes
    rw [Vector.length_toList]
    decide

theorem exists_saved : ∃ cache arena,
      steps (Cache.step sampleInet) (Cache.initial false)
        [.enable 1 true, .operate (.store [0x61] kTypeA ⟨[sampleText], 60, none⟩ 5 0)] = some cache ∧
      cache.arena = some arena ∧ (quiet arena).Sound sampleInet ∧
      ∃ kept, recordCount (quiet arena) kept = 1 ∧
        ∀ seeks, Arrives (volume seeks) (quiet arena) kCacheDatPath kept := by
  have hstorable : Storable [0x61] kTypeA [sampleText] := by decide
  obtain ⟨cache, arena, fresh, index, old, hsteps, harena, hvacant, hstored⟩ :=
    exists_single_store sampleInet ⟨[sampleText], 60, none⟩ hstorable 5
  have hmade : Made sampleInet arena := ⟨_, _, cache, hsteps, harena⟩
  have hsound : (quiet arena).Sound sampleInet := by
    constructor
    · rintro _ ⟨rfl⟩
      exact hmade
    · exact fun _ ↦ hmade
  have hname : (arena.nodes index).name = [0x61] := congrArg Prod.fst hstored.key_written
  have hwrites : writesNode (arena.nodes index) := by
    rw [writesNode, hname]
    rfl
  have hkeeps : keepsNode true 0 (arena.nodes index) := by
    rw [keepsNode, hname]
    rfl
  have hcopies : (copies (quiet arena) [index]).filter writesNode = [arena.nodes index] := by
    change [arena.nodes index].filter writesNode = _
    rw [filter_singleton, hwrites]
    rfl
  have hsane : Sane (arena.nodes index) := by
    apply hmade.sane
    rw [hname]
    exact cons_ne_nil _ _
  refine ⟨cache, arena, hsteps, harena, hsound, [index], ?_, fun seeks ↦ ?_⟩
  · rw [recordCount, hcopies]
    rfl
  · refine ⟨by decide, ?_, cons_ne_nil _ _, rfl, rfl, ⟨?_, fun _ ↦ ?_⟩, rfl, rfl, rfl⟩
    · exact snapshot_single hvacant hstored hkeeps
    · apply takes_of_forall
      rw [fileChunks, forall_mem_cons]
      refine ⟨Nat.le_of_ble_eq_true rfl, ?_⟩
      rw [nodeChunks, hcopies, flatMap_singleton]
      exact length_recordChunk hsane true 0
    · exact Nat.le_of_ble_eq_true rfl

/-- With every call a success the save is as it says. -/
theorem truthful_iff_single : ∃ cache arena,
      steps (Cache.step sampleInet) (Cache.initial false)
        [.enable 1 true, .operate (.store [0x61] kTypeA ⟨[sampleText], 60, none⟩ 5 0)] = some cache ∧
      cache.arena = some arena ∧
      ∃ saved, saveToFile (volume true) (quiet arena) kCacheDatPath (fun _ ↦ none) = some saved ∧
        Truthful (quiet arena) kCacheDatPath (fun _ ↦ none) saved := by
  obtain ⟨cache, arena, hsteps, harena, hsound, -⟩ := exists_saved
  obtain ⟨saved, hsave, htruthful⟩ :=
    truthful_iff sampleInet (volume true) (quiet arena) hsound kCacheDatPath fun _ ↦ none
  refine ⟨cache, arena, hsteps, harena, saved, hsave, htruthful.mpr ?_⟩
  rintro ⟨kept, -, hseeks, -⟩
  cases hseeks

/-- A seek that fails: the save reports a file that the reader refuses. -/
theorem reported_unreadable : ∃ cache arena,
      steps (Cache.step sampleInet) (Cache.initial false)
        [.enable 1 true, .operate (.store [0x61] kTypeA ⟨[sampleText], 60, none⟩ 5 0)] = some cache ∧
      cache.arena = some arena ∧
      ∃ saved content, saveToFile (volume false) (quiet arena) kCacheDatPath (fun _ ↦ none) = some saved ∧
        saved.returned = true ∧ saved.entriesWritten = 1 ∧
        saved.storage kCacheDatPath = some content ∧
        (read (some content)).status = .trailingBytes ∧
        ¬Truthful (quiet arena) kCacheDatPath (fun _ ↦ none) saved := by
  obtain ⟨cache, arena, hsteps, harena, hsound, kept, hcount, harrives⟩ := exists_saved
  have hlists (made : Arena) (hmade : (quiet arena).arena = some made) :
      ∃ kept, snapshot (quiet arena).ignoreTtl (quiet arena).listedMs made = some kept := by
    obtain ⟨kept, hsnapshot, -⟩ := hsound.exists_snapshot hmade
    exact ⟨kept, hsnapshot⟩
  obtain ⟨saved, hsave, hcame, -⟩ :=
    saveToFile_spec (volume false) (quiet arena) hlists kCacheDatPath fun _ ↦ none
  have hend := hcame kept (harrives false)
  have hsome : 0 < recordCount (quiet arena) kept := by
    rw [hcount]
    exact Nat.one_pos
  obtain ⟨hwritten, hcontent⟩ := hend.renamed rfl
  refine ⟨cache, arena, hsteps, harena, saved, _, hsave, hend.returned, hwritten.trans hcount, hcontent,
    read_unpatched hsome, ?_⟩
  exact hend.not_truthful hsound (harrives false) rfl hsome

end DhcpServer.Dns.FailingSaves
