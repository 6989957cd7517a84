import DhcpServer.Security.CertStore
import Mathlib.Data.List.Infix

/-!
# What is left of a certificate pair

`writePairIn` removes the old pair, writes the certificate and then the key, and removes what it has written when
a write fails. No removal is checked: an old key that stays there is joined by the new certificate.
-/

namespace DhcpServer.Security.PairWrites

open Library List

structure Pair where
  cert : Bytes
  key : Bytes

/-- The two files of the pair on one volume. -/
structure Volume where
  cert : Option Bytes
  key : Option Bytes

/-- How `writeFile` goes: it stops after so many bytes, or everything is there and the close reports an error. -/
inductive Write
  | openFails
  | stops (reach : Nat)
  | closeFails
  | written
deriving DecidableEq

/-- How the calls of `writePairIn` go; the last two are those of the clean-up. -/
structure Outcomes where
  certRemoved : Bool
  keyRemoved : Bool
  cert : Write
  key : Write
  certCleaned : Bool
  keyCleaned : Bool

/-- What the file holds afterwards. -/
def writeFile (write : Write) (text : Bytes) (old : Option Bytes) : Option Bytes :=
  match write with
  | .openFails => old
  | .stops reach => some (text.take reach)
  | .closeFails | .written => some text

/-- What the file holds on the way, once it is open. -/
def Write.passes (write : Write) (text : Bytes) : List Bytes :=
  match write with
  | .openFails => []
  | .stops reach => (text.take reach).inits
  | .closeFails | .written => text.inits

/-- `eraseFiles`, by the removals that succeed. -/
def Volume.erase (volume : Volume) (cert key : Bool) : Volume :=
  ⟨if cert then none else volume.cert, if key then none else volume.key⟩

section Steps

variable (outcomes : Outcomes) (pair : Pair) (old : Volume)

def emptied : Volume := old.erase outcomes.certRemoved outcomes.keyRemoved

def certified : Volume :=
  ⟨writeFile outcomes.cert pair.cert (emptied outcomes old).cert, (emptied outcomes old).key⟩

def keyed : Volume :=
  ⟨(certified outcomes pair old).cert, writeFile outcomes.key pair.key (certified outcomes pair old).key⟩

def certPassed : List Volume :=
  [old, old.erase outcomes.certRemoved false, emptied outcomes old] ++
    (outcomes.cert.passes pair.cert).map fun text ↦ ⟨some text, (emptied outcomes old).key⟩

def keyPassed : List Volume :=
  certPassed outcomes pair old ++
    (outcomes.key.passes pair.key).map fun text ↦ ⟨(certified outcomes pair old).cert, some text⟩

/-- The result, the states of the volume at which the device may restart, and the last one. -/
structure Attempt where
  done : Bool
  passed : List Volume
  volume : Volume

/-- The end of a call that has failed. -/
def cleaned (passed : List Volume) (volume : Volume) : Attempt where
  done := false
  passed := passed ++ [volume, volume.erase outcomes.certCleaned false]
  volume := volume.erase outcomes.certCleaned outcomes.keyCleaned

def writePairIn : Attempt :=
  if outcomes.cert ≠ .written then
    cleaned outcomes (certPassed outcomes pair old) (certified outcomes pair old)
  else if outcomes.key ≠ .written then cleaned outcomes (keyPassed outcomes pair old) (keyed outcomes pair old)
  else ⟨true, keyPassed outcomes pair old, keyed outcomes pair old⟩

end Steps

def load (volume : Volume) : Option Pair := do
  let cert ← volume.cert
  let key ← volume.key
  return ⟨cert, key⟩

def Pair.volume (pair : Pair) : Volume := ⟨some pair.cert, some pair.key⟩

/-- What `load` returns are the files of one pair, as far as they have been written. -/
def OfOnePair (pair : Pair) (old volume : Volume) : Prop :=
  ∀ loaded, load volume = some loaded →
    load old = some loaded ∨ loaded.cert <+: pair.cert ∧ loaded.key <+: pair.key

structure Whole (outcomes : Outcomes) (pair : Pair) (old : Volume) : Prop where
  left : (writePairIn outcomes pair old).volume = pair.volume ∨ (writePairIn outcomes pair old).volume = old ∨
    (writePairIn outcomes pair old).volume = ⟨none, none⟩
  done : (writePairIn outcomes pair old).done = true → (writePairIn outcomes pair old).volume = pair.volume
  restarted : ∀ volume ∈ (writePairIn outcomes pair old).passed, OfOnePair pair old volume

/-- The old key has gone when the certificate is opened, and the clean-up removes what a failed call has written;
where no file is opened both old ones go or both stay. -/
def Clean (hasCert hasKey : Bool) (outcomes : Outcomes) : Prop :=
  match outcomes.cert with
  | .openFails =>
    (hasCert → outcomes.certRemoved ∨ outcomes.certCleaned) ∧
        (hasKey → outcomes.keyRemoved ∨ outcomes.keyCleaned) ∨
      (hasCert → ¬ outcomes.certRemoved ∧ ¬ outcomes.certCleaned) ∧
        (hasKey → ¬ outcomes.keyRemoved ∧ ¬ outcomes.keyCleaned)
  | .stops _ | .closeFails => (hasKey → outcomes.keyRemoved) ∧ outcomes.certCleaned
  | .written =>
    (hasKey → outcomes.keyRemoved) ∧ match outcomes.key with
      | .openFails => outcomes.certCleaned = true
      | .stops _ => outcomes.certCleaned ∧ outcomes.keyCleaned
      | .closeFails => outcomes.certCleaned = outcomes.keyCleaned
      | .written => True

variable {outcomes : Outcomes} {pair : Pair} {old volume : Volume}

/-! ## The states on the way -/

theorem OfOnePair.erase (hone : OfOnePair pair old volume) (cert key : Bool) :
    OfOnePair pair old (volume.erase cert key) := by
  intro loaded hloaded
  cases cert <;> cases key <;> simp [load, Volume.erase] at hloaded
  exact hone loaded (by simpa [load] using hloaded)

theorem ofOnePair_old : OfOnePair pair old old := fun _ hloaded ↦ .inl hloaded

theorem ofOnePair_keyless (hkey : volume.key = none) : OfOnePair pair old volume := by
  intro loaded hloaded
  simp [load, hkey] at hloaded

theorem ofOnePair_begun {cert key : Bytes} (hcert : cert <+: pair.cert) (hkey : key <+: pair.key) :
    OfOnePair pair old ⟨some cert, some key⟩ := by
  intro loaded hloaded
  cases hloaded
  exact .inr ⟨hcert, hkey⟩

theorem prefix_of_passes {write : Write} {text passed : Bytes} (hpassed : passed ∈ write.passes text) :
    passed <+: text := by
  cases write with
  | openFails => cases hpassed
  | stops reach => exact ((mem_inits _ _).mp hpassed).trans ( take_prefix _ _)
  | closeFails | written => exact (mem_inits _ _).mp hpassed

/-- The old key has gone when there is something of the new certificate. -/
def KeyGone (outcomes : Outcomes) (old : Volume) : Prop :=
  outcomes.cert ≠ .openFails → (emptied outcomes old).key = none

theorem ofOnePair_certPassed (hgone : KeyGone outcomes old) (hmem : volume ∈ certPassed outcomes pair old) :
    OfOnePair pair old volume := by
  rcases mem_append.mp hmem with hmem | hmem
  · simp only [mem_cons, not_mem_nil, or_false] at hmem
    rcases hmem with rfl | rfl | rfl
    · exact ofOnePair_old
    · exact ofOnePair_old.erase _ _
    · exact ofOnePair_old.erase _ _
  · obtain ⟨text, htext, rfl⟩ := mem_map.mp hmem
    have hopened : outcomes.cert ≠ .openFails := by
      intro hfails
      rw [hfails] at htext
      cases htext
    exact ofOnePair_keyless (hgone hopened)

theorem ofOnePair_certified (hgone : KeyGone outcomes old) : OfOnePair pair old (certified outcomes pair old) := by
  by_cases hfails : outcomes.cert = .openFails
  · rw [certified, hfails]
    exact ofOnePair_old.erase _ _
  · exact ofOnePair_keyless (hgone hfails)

theorem certified_cert (hwritten : outcomes.cert = .written) :
    (certified outcomes pair old).cert = some pair.cert := by
  rw [certified, hwritten, writeFile]

theorem ofOnePair_keyPassed (hgone : KeyGone outcomes old) (hwritten : outcomes.cert = .written)
    (hmem : volume ∈ keyPassed outcomes pair old) : OfOnePair pair old volume := by
  rcases mem_append.mp hmem with hmem | hmem
  · exact ofOnePair_certPassed hgone hmem
  · obtain ⟨text, htext, rfl⟩ := mem_map.mp hmem
    rw [certified_cert hwritten]
    exact ofOnePair_begun (prefix_refl _) (prefix_of_passes htext)

theorem ofOnePair_keyed (hgone : KeyGone outcomes old) (hwritten : outcomes.cert = .written) :
    OfOnePair pair old (keyed outcomes pair old) := by
  unfold keyed
  rw [certified_cert hwritten]
  cases outcomes.key with
  | openFails => exact ofOnePair_keyless (hgone (by simp [hwritten]))
  | stops reach => exact ofOnePair_begun (prefix_refl _) ( take_prefix _ _)
  | closeFails | written => exact ofOnePair_begun (prefix_refl _) (prefix_refl _)

theorem ofOnePair_cleaned {passed : List Volume} (hpassed : ∀ volume ∈ passed, OfOnePair pair old volume)
    (hlast : OfOnePair pair old volume) {way : Volume} (hmem : way ∈ (cleaned outcomes passed volume).passed) :
    OfOnePair pair old way := by
  rcases mem_append.mp hmem with hmem | hmem
  · exact hpassed way hmem
  · simp only [mem_cons, not_mem_nil, or_false] at hmem
    rcases hmem with rfl | rfl
    · exact hlast
    · exact hlast.erase _ _

theorem ofOnePair_passed (hgone : KeyGone outcomes old) (hmem : volume ∈ (writePairIn outcomes pair old).passed) :
    OfOnePair pair old volume := by
  unfold writePairIn at hmem
  split_ifs at hmem with hcert hkey
  · exact ofOnePair_cleaned (fun _ ↦ ofOnePair_certPassed hgone) (ofOnePair_certified hgone) hmem
  · rw [not_not] at hcert
    exact ofOnePair_cleaned (fun _ ↦ ofOnePair_keyPassed hgone hcert) (ofOnePair_keyed hgone hcert) hmem
  · exact ofOnePair_keyPassed hgone (not_not.mp hcert) hmem

variable {hasCert hasKey : Bool}

theorem Clean.keyGone (hclean : Clean hasCert hasKey outcomes) (hkey : old.key.isSome = hasKey) :
    KeyGone outcomes old := by
  intro hopened
  have hremoved : hasKey → outcomes.keyRemoved := by
    unfold Clean at hclean
    split at hclean
    case h_1 hfails => exact absurd hfails hopened
    all_goals exact hclean.1
  unfold emptied Volume.erase
  cases hold : old.key with
  | none => simp
  | some key =>
    rw [hold] at hkey
    simp [hremoved hkey.symm]

/-- Where the certificate cannot be opened, only the removals of both passes count. -/
theorem left_openFails (hfails : outcomes.cert = .openFails) :
    (writePairIn outcomes pair old).volume = old.erase (outcomes.certRemoved || outcomes.certCleaned)
      (outcomes.keyRemoved || outcomes.keyCleaned) := by
  rw [writePairIn, hfails, if_pos (by decide), cleaned, certified, hfails, writeFile, emptied]
  cases outcomes.certRemoved <;> cases outcomes.keyRemoved <;> simp [Volume.erase]

theorem left_certFails (hfails : outcomes.cert ≠ .written) (hnone : (emptied outcomes old).key = none) :
    (writePairIn outcomes pair old).volume =
      Volume.erase ⟨(certified outcomes pair old).cert, none⟩ outcomes.certCleaned outcomes.keyCleaned := by
  rw [writePairIn, if_pos hfails, cleaned, certified, hnone]

theorem left_written (hcert : outcomes.cert = .written) (hkey : outcomes.key = .written) :
    writePairIn outcomes pair old = ⟨true, keyPassed outcomes pair old, pair.volume⟩ := by
  rw [writePairIn, if_neg (not_not.mpr hcert), if_neg (not_not.mpr hkey), keyed, certified_cert hcert, hkey,
    writeFile, Pair.volume]

theorem left_keyFails (hcert : outcomes.cert = .written) (hkey : outcomes.key ≠ .written)
    (hnone : (emptied outcomes old).key = none) :
    (writePairIn outcomes pair old).volume = Volume.erase ⟨some pair.cert, writeFile outcomes.key pair.key none⟩
      outcomes.certCleaned outcomes.keyCleaned := by
  rw [writePairIn, if_neg (not_not.mpr hcert), if_pos hkey, cleaned, keyed, certified_cert hcert, certified, hnone]

theorem Clean.left (hclean : Clean hasCert hasKey outcomes) (hcert : old.cert.isSome = hasCert)
    (hkey : old.key.isSome = hasKey) :
    (writePairIn outcomes pair old).volume = pair.volume ∨ (writePairIn outcomes pair old).volume = old ∨
      (writePairIn outcomes pair old).volume = ⟨none, none⟩ := by
  have hgone := hclean.keyGone hkey
  unfold Clean at hclean
  cases hwrite : outcomes.cert with
  | openFails =>
    rw [left_openFails hwrite]
    rw [hwrite] at hclean
    obtain ⟨oldCert, oldKey⟩ := old
    subst hcert hkey
    rcases hclean with ⟨hcert, hkey⟩ | ⟨hcert, hkey⟩
    · refine .inr (.inr ?_)
      cases oldCert <;> cases oldKey <;> simp_all [Volume.erase]
    · refine .inr (.inl ?_)
      cases oldCert <;> cases oldKey <;> simp_all [Volume.erase]
  | stops reach | closeFails =>
    have hfails : outcomes.cert ≠ .written := by simp [hwrite]
    rw [hwrite] at hclean
    rw [left_certFails hfails (hgone (by simp [hwrite])), hclean.2]
    simp [Volume.erase]
  | written =>
    have hnone := hgone (by simp [hwrite])
    rw [hwrite] at hclean
    replace hclean := hclean.2
    cases hkeyWrite : outcomes.key with
    | written => exact .inl (by rw [left_written hwrite hkeyWrite])
    | openFails =>
      rw [hkeyWrite] at hclean
      rw [left_keyFails hwrite (by simp [hkeyWrite]) hnone, hkeyWrite, writeFile, hclean]
      simp [Volume.erase]
    | stops reach =>
      rw [hkeyWrite] at hclean
      rw [left_keyFails hwrite (by simp [hkeyWrite]) hnone, hclean.1, hclean.2]
      simp [Volume.erase]
    | closeFails =>
      rw [hkeyWrite] at hclean
      rw [left_keyFails hwrite (by simp [hkeyWrite]) hnone, hclean, hkeyWrite, writeFile]
      cases outcomes.keyCleaned <;> simp [Volume.erase, Pair.volume]

/-! ## Every other pattern -/

/-- A text that a write which stops does not come to the end of. -/
def Write.beyond : Write → Bytes
  | .stops reach => replicate (reach + 1) 2
  | _ => [2]

def samplePair (outcomes : Outcomes) : Pair := ⟨outcomes.cert.beyond, outcomes.key.beyond⟩

def sampleOld (hasCert hasKey : Bool) : Volume :=
  ⟨if hasCert then some [1] else none, if hasKey then some [1] else none⟩

theorem not_old_begins (write : Write) : ¬ [1] <+: write.beyond := by
  cases write <;> simp [Write.beyond, replicate_succ]

theorem writeFile_beyond_ne (write : Write) (old : Option Bytes) (hnew : write ≠ .openFails ∨ old = none) :
    writeFile write write.beyond old ≠ some [1] := by
  cases write with
  | openFails => simp_all [writeFile]
  | stops reach => cases reach <;> simp [writeFile, Write.beyond, replicate_succ]
  | closeFails | written => simp [writeFile, Write.beyond]

theorem mem_passed_empty (hopened : outcomes.cert ≠ .openFails) :
    (⟨some [], (emptied outcomes old).key⟩ : Volume) ∈ (writePairIn outcomes pair old).passed := by
  have hempty : (⟨some [], (emptied outcomes old).key⟩ : Volume) ∈ certPassed outcomes pair old := by
    refine mem_append_right _ (mem_map.mpr ⟨[], ?_, rfl⟩)
    cases hwrite : outcomes.cert with
    | openFails => exact absurd hwrite hopened
    | stops | closeFails | written => simp [Write.passes]
  unfold writePairIn
  split_ifs
  · exact mem_append_left _ hempty
  · exact mem_append_left _ (mem_append_left _ hempty)
  · exact mem_append_left _ hempty

theorem keyRemoved_of_whole (hwhole : Whole outcomes (samplePair outcomes) (sampleOld hasCert hasKey))
    (hopened : outcomes.cert ≠ .openFails) (hkey : hasKey) : outcomes.keyRemoved := by
  by_contra hstays
  have hold : (emptied outcomes (sampleOld hasCert hasKey)).key = some [1] := by
    simp [emptied, Volume.erase, sampleOld, hstays, hkey]
  have hmixed := hwhole.restarted _ (mem_passed_empty hopened)
  rw [hold] at hmixed
  rcases hmixed ⟨[], [1]⟩ rfl with hload | ⟨-, hbegins⟩
  · cases hasCert <;> simp [load, sampleOld, hkey] at hload
  · exact not_old_begins _ hbegins

theorem keyGone_of_whole (hwhole : Whole outcomes (samplePair outcomes) (sampleOld hasCert hasKey)) :
    KeyGone outcomes (sampleOld hasCert hasKey) := by
  intro hopened
  cases hkey : hasKey with
  | false => simp [emptied, Volume.erase, sampleOld]
  | true =>
    have hremoved := keyRemoved_of_whole hwhole hopened hkey
    simp [emptied, Volume.erase, hremoved]

theorem sampleOld_cert_ne {text : Bytes} (hnew : text ≠ [1]) : (sampleOld hasCert hasKey).cert ≠ some text := by
  cases hasCert <;> simp [sampleOld, hnew.symm]

theorem certCleaned_of_whole (hwhole : Whole outcomes (samplePair outcomes) (sampleOld hasCert hasKey))
    (hopened : outcomes.cert ≠ .openFails) (hfails : outcomes.cert ≠ .written) : outcomes.certCleaned := by
  by_contra hstays
  rw [Bool.not_eq_true] at hstays
  have hleft := hwhole.left
  rw [left_certFails hfails (keyGone_of_whole hwhole hopened), certified, hstays] at hleft
  have hnew := writeFile_beyond_ne outcomes.cert (emptied outcomes (sampleOld hasCert hasKey)).cert (.inl hopened)
  obtain ⟨text, htext⟩ : ∃ text, writeFile outcomes.cert outcomes.cert.beyond
      (emptied outcomes (sampleOld hasCert hasKey)).cert = some text := by
    cases hwrite : outcomes.cert with
    | openFails => exact absurd hwrite hopened
    | stops | closeFails | written => exact ⟨_, rfl⟩
  rw [samplePair, htext] at hleft
  rcases hleft with hpair | hold | hnone
  · simp [Volume.erase, Pair.volume] at hpair
  · exact sampleOld_cert_ne (fun heq ↦ hnew (htext.trans (congrArg some heq))) (congrArg Volume.cert hold).symm
  · exact nomatch congrArg Volume.cert hnone

/-- With the certificate in place the key stays if the certificate does. -/
theorem keyLeft_of_whole (hwhole : Whole outcomes (samplePair outcomes) (sampleOld hasCert hasKey))
    (hwritten : outcomes.cert = .written) (hfails : outcomes.key ≠ .written) :
    (if outcomes.keyCleaned then none else writeFile outcomes.key outcomes.key.beyond none) =
      if outcomes.certCleaned then none else some outcomes.key.beyond := by
  have hleft := hwhole.left
  rw [left_keyFails hwritten hfails (keyGone_of_whole hwhole (by simp [hwritten])), samplePair, hwritten] at hleft
  cases hcleaned : outcomes.certCleaned with
  | false =>
    rw [hcleaned] at hleft
    rcases hleft with hpair | hold | hnone
    · exact congrArg Volume.key hpair
    · exact absurd (congrArg Volume.cert hold).symm (sampleOld_cert_ne (by simp [Write.beyond]))
    · exact nomatch congrArg Volume.cert hnone
  | true =>
    rw [hcleaned] at hleft
    rcases hleft with hpair | hold | hnone
    · exact nomatch congrArg Volume.cert hpair
    · have hkept := congrArg Volume.key hold
      cases hkey : hasKey with
      | false => simpa [hkey, sampleOld, Volume.erase] using hkept
      | true =>
        have hnew := writeFile_beyond_ne outcomes.key none (.inr rfl)
        cases hkeyCleaned : outcomes.keyCleaned <;> simp_all [Volume.erase, sampleOld]
    · exact congrArg Volume.key hnone

theorem whole_iff (hasCert hasKey : Bool) (outcomes : Outcomes) :
    (∀ old pair, old.cert.isSome = hasCert → old.key.isSome = hasKey → Whole outcomes pair old) ↔
      Clean hasCert hasKey outcomes := by
  constructor
  · intro hall
    have hwhole : Whole outcomes (samplePair outcomes) (sampleOld hasCert hasKey) :=
      hall _ _ (by cases hasCert <;> rfl) (by cases hasKey <;> rfl)
    have hremoved := keyRemoved_of_whole hwhole
    unfold Clean
    cases hwrite : outcomes.cert with
    | openFails =>
      have hleft := hwhole.left
      rw [left_openFails hwrite] at hleft
      have hnew : (samplePair outcomes).volume.cert = some [2] := by
        simp [samplePair, Pair.volume, hwrite, Write.beyond]
      rcases hleft with hpair | hold | hnone
      · rw [← hpair] at hnew
        cases hasCert <;> simp [Volume.erase, sampleOld] at hnew
      · refine .inr ?_
        cases hasCert <;> cases hasKey <;> simp_all [Volume.erase, sampleOld]
      · refine .inl ⟨fun hhas ↦ ?_, fun hhas ↦ ?_⟩
        · have hgone := congrArg Volume.cert hnone
          cases hremoves : outcomes.certRemoved <;> simp_all [Volume.erase, sampleOld]
        · have hgone := congrArg Volume.key hnone
          cases hremoves : outcomes.keyRemoved <;> simp_all [Volume.erase, sampleOld]
    | stops | closeFails =>
      exact ⟨hremoved (by simp [hwrite]), certCleaned_of_whole hwhole (by simp [hwrite]) (by simp [hwrite])⟩
    | written =>
      refine ⟨hremoved (by simp [hwrite]), ?_⟩
      have hkey := keyLeft_of_whole hwhole hwrite
      cases hkeyWrite : outcomes.key with
      | written => trivial
      | openFails =>
        rw [hkeyWrite] at hkey
        simpa [writeFile] using hkey
      | stops reach =>
        rw [hkeyWrite] at hkey
        cases hcert : outcomes.certCleaned <;> cases hcleaned : outcomes.keyCleaned <;>
          simp_all [writeFile, Write.beyond]
      | closeFails =>
        rw [hkeyWrite] at hkey
        cases hcert : outcomes.certCleaned <;> cases hcleaned : outcomes.keyCleaned <;>
          simp_all [writeFile, Write.beyond]
  · intro hclean old pair hcert hkey
    refine ⟨hclean.left hcert hkey, fun hdone ↦ ?_, fun _ ↦ ofOnePair_passed (hclean.keyGone hkey)⟩
    have hboth : outcomes.cert = .written ∧ outcomes.key = .written := by
      unfold writePairIn at hdone
      split_ifs at hdone with hcertWrite hkeyWrite
      · cases hdone
      · cases hdone
      · exact ⟨not_not.mp hcertWrite, not_not.mp hkeyWrite⟩
    rw [left_written hboth.1 hboth.2]

/-- The key file is locked: it is neither removed nor opened. -/
def keyLocked : Outcomes := ⟨true, false, .written, .openFails, true, false⟩

theorem locked_key_is_left : ¬ ∀ outcomes pair old, Whole outcomes pair old := by
  intro hclaim
  have hwhole := hclaim keyLocked ⟨[1], [2]⟩ ⟨some [3], some [4]⟩
  rcases hwhole.left with hpair | hold | hnone
  · exact nomatch congrArg Volume.cert hpair
  · exact nomatch congrArg Volume.cert hold
  · exact nomatch congrArg Volume.key hnone

/-! ## The pair in the tree of files -/

section Refinement

open Files Function

variable (calls : Calls) (storage : CertStorage) (tree : Tree) (file : List Bytes) (path text : Bytes)

def pairOn : Volume := ⟨tree.read kCertFile, tree.read kKeyFile⟩

theorem read_of_find {tree after : Tree} {file : List Bytes} {content : Option Bytes}
    (hfind : ∀ other, after.find other = if other = file then content.map .file else tree.find other) :
    after.read = update tree.read file content := by
  funext other
  rw [FileTree.read, hfind]
  by_cases hother : other = file
  · rw [if_pos hother, hother, update_self]
    cases content <;> rfl
  · rw [if_neg hother, update_of_ne hother, FileTree.read]

theorem removeFile_refines (fate : Fate) : ∃ removed : Bool, (CertStore.removeFile fate tree file path).2.read =
      update tree.read file (if removed then none else tree.read file) := by
  have hstays : tree.read = update tree.read file (tree.read file) := (update_eq_self file _).symm
  unfold CertStore.removeFile
  split_ifs
  · exact ⟨false, hstays⟩
  · exact ⟨false, hstays⟩
  · cases hleft : tree.unlink file with
    | none => exact ⟨false, hstays⟩
    | some left => exact ⟨true, read_of_find (FileTree.unlink_spec hleft).2⟩

theorem eraseFiles_refines :
    ∃ cert key, pairOn (CertStore.eraseFiles calls storage tree).2 = (pairOn tree).erase cert key := by
  obtain ⟨cert, hcert⟩ := removeFile_refines tree kCertFile (certFilePathIn storage) (calls.fate 0)
  obtain ⟨key, hkey⟩ := removeFile_refines _ kKeyFile (keyFilePathIn storage) (calls.fate 1)
  refine ⟨cert, key, ?_⟩
  rw [pairOn, CertStore.eraseFiles, hkey, hcert, update_self, update_of_ne (by decide), update_self,
    update_of_ne (by decide), Volume.erase, pairOn]

theorem writeFile_refines : ∃ write : Write,
    ((CertStore.writeFile calls tree file path text).1 = none ↔ write = .written) ∧
      (CertStore.writeFile calls tree file path text).2.read =
        update tree.read file (writeFile write text (tree.read file)) := by
  unfold CertStore.writeFile
  split_ifs
  · exact ⟨.openFails, by simp, (update_eq_self file _).symm⟩
  · dsimp only
    split
    · exact ⟨.openFails, by simp, (update_eq_self file _).symm⟩
    · rename_i written hwritten
      have hread : written.read = update tree.read file (some _) :=
        read_of_find (FileTree.write_spec hwritten).2
      by_cases hfailed : (calls.fate 1).refused.isSome
      · exact ⟨.stops (calls.reach 1), by simp [hfailed], by simpa [hfailed, writeFile] using hread⟩
      · exact ⟨.written, by simp [hfailed], by simpa [hfailed, writeFile] using hread⟩

def EndsAs (attempt : Attempt) (result : Option Bytes × Tree) : Prop :=
  attempt.volume = pairOn result.2 ∧ (attempt.done = true ↔ result.1 = none)

/-- Every call of the store, on every tree of files, goes as one of the calls above. -/
theorem store_refines_calls (certPem keyPem : Bytes) : ∃ outcomes,
    EndsAs (writePairIn outcomes ⟨certPem, keyPem⟩ (pairOn tree))
      (CertStore.writePairIn calls storage certPem keyPem tree) := by
  obtain ⟨certRemoved, keyRemoved, hempty⟩ := eraseFiles_refines calls storage tree
  unfold CertStore.writePairIn
  generalize (CertStore.eraseFiles calls storage tree).2 = empty at hempty ⊢
  obtain ⟨cert, hcertDone, hcert⟩ := writeFile_refines (calls.from 2) empty kCertFile
    (certFilePathIn storage) certPem
  generalize CertStore.writeFile (calls.from 2) empty kCertFile (certFilePathIn storage) certPem = first at *
  have hfiles : kKeyFile ≠ kCertFile := by decide
  obtain ⟨failed | why, middle⟩ := first
  · have hdone : cert = .written := hcertDone.mp rfl
    obtain ⟨key, hkeyDone, hkey⟩ := writeFile_refines (calls.from 4) middle kKeyFile
      (keyFilePathIn storage) keyPem
    dsimp only
    generalize CertStore.writeFile (calls.from 4) middle kKeyFile (keyFilePathIn storage) keyPem = second at *
    have hkeyed (certCleaned keyCleaned : Bool) : keyed ⟨certRemoved, keyRemoved, cert, key, certCleaned,
        keyCleaned⟩ ⟨certPem, keyPem⟩ (pairOn tree) = pairOn second.2 := by
      rw [keyed, certified, emptied, ← hempty, pairOn, pairOn, hkey, hcert]
      simp [hfiles, hfiles.symm]
    obtain ⟨failed | why, last⟩ := second
    · have hwritten : key = .written := hkeyDone.mp rfl
      refine ⟨⟨certRemoved, keyRemoved, cert, key, false, false⟩, ?_⟩
      rw [writePairIn, if_neg (not_not.mpr hdone), if_neg (not_not.mpr hwritten), hkeyed]
      exact ⟨rfl, by simp⟩
    · obtain ⟨certCleaned, keyCleaned, hclean⟩ := eraseFiles_refines (calls.from 6) storage last
      have hfails : key ≠ .written := fun hwritten ↦ Option.some_ne_none _ (hkeyDone.mpr hwritten)
      refine ⟨⟨certRemoved, keyRemoved, cert, key, certCleaned, keyCleaned⟩, ?_⟩
      rw [writePairIn, if_neg (not_not.mpr hdone), if_pos hfails, cleaned, hkeyed]
      exact ⟨hclean.symm, by simp⟩
  · obtain ⟨certCleaned, keyCleaned, hclean⟩ := eraseFiles_refines (calls.from 4) storage middle
    have hfails : cert ≠ .written := fun hwritten ↦ Option.some_ne_none _ (hcertDone.mpr hwritten)
    have hcertified : pairOn middle = ⟨writeFile cert certPem (pairOn empty).cert, (pairOn empty).key⟩ := by
      rw [pairOn, hcert, update_self, update_of_ne hfiles, pairOn]
    refine ⟨⟨certRemoved, keyRemoved, cert, .written, certCleaned, keyCleaned⟩, ?_⟩
    rw [writePairIn, if_pos hfails, cleaned, certified, emptied, ← hempty, ← hcertified]
    exact ⟨hclean.symm, by simp⟩

end Refinement

end DhcpServer.Security.PairWrites
