import DhcpServer.Dns.CacheFile
import DhcpServer.Dns.DnsStatStore
import Mathlib.Data.List.Induction

/-!
# Saves with crashes in between

The two files that go through `atomicfile`, the statistics and the cache, saved again and again on
a machine that may stop at any call. After each save, whatever became of it, comes the `recover`
with which a later load begins.
-/

namespace DhcpServer.Dns.CacheFile

open Library Core.AtomicFile List
open InternalCache (Node)

/-- What the loop of `saveToFile` hands to `fwrite` for one node. -/
def recordChunks (ignoreTtl : Bool) (now : UInt32) (node : Node) : List Bytes :=
  [[UInt8.ofNat node.name.length], node.name, tailBytes ignoreTtl now node, putU32 node.uses] ++
    (if 0 < node.nA then [(node.a4.toList.take node.nA).flatMap Vector.toList] else []) ++
    (node.a6.toList.take node.nAaaa).map Vector.toList

/-- The calls on the part: a header without a count, the records, the count, and the close. -/
def saveCalls (path : Bytes) (ignoreTtl : Bool) (now : UInt32) (copies : List Node) : List Call :=
  let written := copies.filter writesNode
  [.create (partPath path)] ++
    (headerBytes 0 :: written.flatMap (recordChunks ignoreTtl now)).map
      (Call.append (partPath path)) ++
    [.overwrite (partPath path) kCountOffset (putU32 (UInt32.ofNat written.length)), .close (partPath path)]

theorem flatten_recordChunks (ignoreTtl : Bool) (now : UInt32) (node : Node) :
    (recordChunks ignoreTtl now node).flatten = recordBytes ignoreTtl now node := by
  have hfour : (if 0 < node.nA then [(node.a4.toList.take node.nA).flatMap Vector.toList]
      else []).flatten = (node.a4.toList.take node.nA).flatMap Vector.toList := by
    split_ifs with hsome
    · simp
    · obtain hnone : node.nA = 0 := by omega
      simp [hnone]
  rw [recordChunks, flatten_append, flatten_append, hfour, ← flatMap_def]
  simp [recordBytes, addressBytes]

theorem flatten_flatMap_recordChunks (ignoreTtl : Bool) (now : UInt32) (written : List Node) :
    (written.flatMap (recordChunks ignoreTtl now)).flatten =
      written.flatMap (recordBytes ignoreTtl now) := by
  induction written with
  | nil => rfl
  | cons node written ih =>
    rw [flatMap_cons, flatten_append, flatten_recordChunks, ih, flatMap_cons]

theorem patch_headerBytes (count : Nat) (rest : Bytes) :
    patch kCountOffset (putU32 (UInt32.ofNat count)) (headerBytes 0 ++ rest) =
      headerBytes count ++ rest := by
  simp [patch, kCountOffset, headerBytes, kMagic, putU32, wordBytes]

theorem saves_saveCalls (path : Bytes) (ignoreTtl : Bool) (now : UInt32) (copies : List Node) :
    Saves path (saveCalls path ignoreTtl now copies) (fileBytes ignoreTtl now copies) where
  within := by
    intro call hcall
    simp only [saveCalls, mem_append, mem_map, mem_cons, not_mem_nil, or_false] at hcall
    rcases hcall with (rfl | ⟨chunk, _, rfl⟩) | rfl | rfl <;> rfl
  written := by
    intro storage
    have hrecords := runCalls_append (partPath path)
      (headerBytes 0 :: (copies.filter writesNode).flatMap (recordChunks ignoreTtl now))
      ((Call.create (partPath path)).apply storage)
    generalize hcreated : (Call.create (partPath path)).apply storage = created at hrecords
    have hempty : created (partPath path) = some [] := by
      rw [← hcreated, Call.apply, Function.update_self]
    rw [saveCalls, runCalls, runAll_append, runAll_append]
    simp only [runAll_cons, runAll_nil, hcreated]
    rw [Call.apply, Call.apply, Function.update_self, ← runCalls, hrecords, hempty]
    simp only [Option.map_some, nil_append, flatten_cons, flatten_flatMap_recordChunks, patch_headerBytes]
    rfl

end DhcpServer.Dns.CacheFile

namespace DhcpServer.Dns.PublishedFiles

open Library Core.AtomicFile
open InternalCache (Node)

/-- A call of `DnsStatStore::save`, or one of `InternalDnsCache::saveToFile` with the nodes it
copied. -/
inductive Save
  | stats (totals : DnsStatStore.DnsStatTotals)
  | cache (ignoreTtl : Bool) (now : UInt32) (copies : List Node)

def Save.content : Save → Bytes
  | stats totals => DnsStatStore.encode totals
  | cache ignoreTtl now copies => CacheFile.fileBytes ignoreTtl now copies

def Save.writes (path : Bytes) : Save → List Call
  | stats totals => DnsStatStore.saveCalls path totals
  | cache ignoreTtl now copies => CacheFile.saveCalls path ignoreTtl now copies

/-- All calls of a save that finds nothing to complain about. -/
def Save.calls (path : Bytes) (save : Save) : List Call := save.writes path ++ publishCalls path

inductive Ending
  | completed
  /-- The machine stopped, or a call of `publish` failed, or the header could not be written: what
  was done by then stays. -/
  | crashed (point : CrashPoint)
  /-- A write or the close failed, and the part was removed. -/
  | failed (point : CrashPoint)

structure Episode where
  save : Save
  ending : Ending

def Episode.storageAfter (path : Bytes) (episode : Episode) (storage : Storage) : Storage :=
  match episode.ending with
  | .completed => (publish path (runCalls (episode.save.writes path) storage)).1
  | .crashed point => crashedCalls (episode.save.calls path) point storage
  | .failed point =>
    (Call.remove (partPath path)).apply (crashedCalls (episode.save.writes path) point storage)

def Episode.apply (path : Bytes) (episode : Episode) (storage : Storage) : Storage :=
  recover path (episode.storageAfter path storage)

/-- The save completed, or it stopped after it had removed the old version. -/
def Episode.Published (path : Bytes) (episode : Episode) : Prop :=
  match episode.ending with
  | .completed => True
  | .crashed point => (episode.save.writes path).length < point.done
  | .failed _ => False

theorem Save.saves (path : Bytes) (save : Save) : Saves path (save.writes path) save.content := by
  cases save with
  | stats totals => exact DnsStatStore.saves_saveCalls path totals
  | cache ignoreTtl now copies => exact CacheFile.saves_saveCalls path ignoreTtl now copies

variable {path : Bytes} {episode : Episode}

theorem Episode.Published.apply_path (hpublished : episode.Published path) (storage : Storage) :
    episode.apply path storage path = some episode.save.content := by
  have hsaves := episode.save.saves path
  rw [Episode.apply, Episode.storageAfter]
  rw [Episode.Published] at hpublished
  cases hending : episode.ending with
  | completed =>
    have hpart := hsaves.written storage
    have hthere : readable (runCalls (episode.save.writes path) storage) (partPath path) := by
      simp [readable, hpart]
    have hplaced := runCalls_publish hpart
    rw [publish, if_pos hthere]
    dsimp only
    rw [recover_of_readable (by simp [hplaced]), hplaced]
  | crashed point =>
    rw [hending] at hpublished
    exact hsaves.recover_crashed_late hpublished storage
  | failed point =>
    rw [hending] at hpublished
    exact hpublished.elim

theorem Episode.apply_path_of_not_published (hpublished : ¬episode.Published path)
    {storage : Storage} {content : Bytes} (hcontent : storage path = some content) :
    episode.apply path storage path = some content := by
  have hsaves := episode.save.saves path
  have hkept : episode.storageAfter path storage path = storage path := by
    rw [Episode.storageAfter]
    rw [Episode.Published] at hpublished
    cases hending : episode.ending with
    | completed =>
      rw [hending] at hpublished
      exact (hpublished trivial).elim
    | crashed point =>
      rw [hending] at hpublished
      exact hsaves.crashed_early (Nat.le_of_not_lt hpublished) storage
    | failed point =>
      have hother : path ≠ partPath path := (partPath_ne path).symm
      dsimp only
      rw [Call.apply, Function.update_of_ne hother]
      exact crashedCalls_other hsaves.within hother point storage
  rw [Episode.apply, recover_of_readable (by simp [hkept, hcontent]), hkept, hcontent]

theorem destination_of_published (path : Bytes) (storage : Storage) (episodes : List Episode)
    (hpublished : ∃ episode ∈ episodes, episode.Published path) :
    ∃ earlier episode later, episodes = earlier ++ episode :: later ∧ episode.Published path ∧
      (∀ skipped ∈ later, ¬skipped.Published path) ∧
      runAll (Episode.apply path) episodes storage path = some episode.save.content := by
  induction episodes using List.reverseRecOn with
  | nil => simp at hpublished
  | append_singleton episodes last ih =>
    rw [runAll_append, runAll_cons, runAll_nil]
    by_cases hlast : last.Published path
    · exact ⟨episodes, last, [], rfl, hlast, by simp, hlast.apply_path _⟩
    · have hbefore : ∃ episode ∈ episodes, episode.Published path := by
        obtain ⟨episode, hmem, hepisode⟩ := hpublished
        rcases List.mem_append.mp hmem with hmem | hmem
        · exact ⟨episode, hmem, hepisode⟩
        · rw [List.mem_singleton.mp hmem] at hepisode
          exact (hlast hepisode).elim
      obtain ⟨earlier, episode, later, rfl, hepisode, hlater, hcontent⟩ := ih hbefore
      refine ⟨earlier, episode, later ++ [last], by simp, hepisode, ?_, ?_⟩
      · intro skipped hskipped
        rcases List.mem_append.mp hskipped with hmem | hmem
        · exact hlater skipped hmem
        · rwa [List.mem_singleton.mp hmem]
      · exact Episode.apply_path_of_not_published hlast hcontent

/-- Whenever a save has completed, the destination holds the complete content of the last save
that completed or that stopped with its part finished and the old version removed. -/
theorem destination_complete (path : Bytes) (storage : Storage) (episodes : List Episode)
    (hcompleted : ∃ episode ∈ episodes, episode.ending = .completed) :
    ∃ earlier episode later, episodes = earlier ++ episode :: later ∧ episode.Published path ∧
      (∀ skipped ∈ later, ¬skipped.Published path) ∧
      runAll (Episode.apply path) episodes storage path = some episode.save.content := by
  apply destination_of_published
  obtain ⟨episode, hmem, hending⟩ := hcompleted
  refine ⟨episode, hmem, ?_⟩
  rw [Episode.Published, hending]
  trivial

/-- A save of the statistics, then one that stops in the middle of its record, then one that stops
between the removal and the rename. -/
def sampleEpisodes : List Episode :=
  [⟨.stats {}, .completed⟩, ⟨.stats { hits := 1 }, .crashed ⟨1, 7⟩⟩,
    ⟨.stats { hits := 2 }, .crashed ⟨4, 0⟩⟩]

theorem destination_complete_twice : ∃ earlier episode later, sampleEpisodes = earlier ++ episode :: later ∧
      episode.Published [0x61] ∧ (∀ skipped ∈ later, ¬skipped.Published [0x61]) ∧
      runAll (Episode.apply [0x61]) sampleEpisodes (fun _ ↦ none) [0x61] =
        some episode.save.content :=
  destination_complete [0x61] (fun _ ↦ none) sampleEpisodes ⟨_, List.mem_cons_self, rfl⟩

end DhcpServer.Dns.PublishedFiles
