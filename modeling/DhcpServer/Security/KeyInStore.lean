import DhcpServer.Files.Outlines
import DhcpServer.Security.CertStore

/-!
# What the store shows of the key

The store opens the key to copy it and to count its bytes. On two volumes that are alike it does the same,
unless they differ in the certificate, which is what it shows.
-/

namespace DhcpServer.Security.CertStore

open Library Files

variable {left right : Tree} {calls : Calls} {mounts : Mounts} {storage : CertStorage} {file : List Bytes}
  {path text text' : Bytes}

/-- An error, if there is one, and a volume that is alike. -/
def BothLeft (result result' : Option Bytes × Tree) : Prop :=
  result.1 = result'.1 ∧ Files.Alike result.2 result'.2

theorem readFile_cases (halike : Files.Alike left right) (calls : Calls) (file : List Bytes) (path : Bytes) :
    (∃ why, readFile calls left file path = .error why ∧ readFile calls right file path = .error why) ∨
      ∃ content content', readFile calls left file path = .ok content ∧
        readFile calls right file path = .ok content' ∧ content.length = content'.length ∧
        left.read file = some content ∧ right.read file = some content' := by
  have hread := FileTree.rel_of_map_eq (halike.read file)
  unfold readFile
  generalize left.read file = content, right.read file = content' at hread ⊢
  by_cases hopen : (calls.fate 0).refused.isSome
  · rw [if_pos hopen, if_pos hopen]
    exact .inl ⟨_, rfl, rfl⟩
  · rw [if_neg hopen, if_neg hopen]
    cases hread with
    | none => exact .inl ⟨_, rfl, rfl⟩
    | @some content content' hlength =>
      dsimp only
      by_cases hfails : (calls.fate 1).refused.isSome
      · rw [if_pos hfails, if_pos hfails]
        exact .inl ⟨_, rfl, rfl⟩
      · rw [if_neg hfails, if_neg hfails]
        exact .inr ⟨content, content', rfl, rfl, hlength, rfl, rfl⟩

theorem readFile_same (hsame : left.read file = right.read file) (calls : Calls) (path : Bytes) :
    readFile calls left file path = readFile calls right file path := by
  rw [readFile, readFile, hsame]

section

variable (halike : Files.Alike left right)
include halike

theorem writeFile_alike (calls : Calls) (file : List Bytes) (path : Bytes)
    (htext : text.length = text'.length) :
    BothLeft (writeFile calls left file path text) (writeFile calls right file path text') := by
  unfold writeFile
  split_ifs
  · exact ⟨rfl, halike⟩
  · have hlength : (if (calls.fate 1).refused.isSome then text.take (calls.reach 1) else text).length =
        (if (calls.fate 1).refused.isSome then text'.take (calls.reach 1) else text').length := by
      split_ifs
      · rw [List.length_take, List.length_take, htext]
      · exact htext
    have hwritten := halike.write hlength file
    dsimp only
    generalize left.write file _ = written, right.write file _ = written' at hwritten ⊢
    cases hwritten with
    | none => exact ⟨rfl, halike⟩
    | some hwritten => exact ⟨rfl, hwritten⟩

theorem removeFile_alike (fate : Fate) (file : List Bytes) (path : Bytes) :
    BothLeft (removeFile fate left file path) (removeFile fate right file path) := by
  have hrest := halike.unlink file
  unfold removeFile
  simp only [halike.find_none]
  generalize left.unlink file = rest, right.unlink file = rest' at hrest ⊢
  split_ifs
  · exact ⟨rfl, halike⟩
  · exact ⟨rfl, halike⟩
  · cases hrest with
    | none => exact ⟨rfl, halike⟩
    | some hrest => exact ⟨rfl, hrest⟩

theorem eraseFiles_alike (calls : Calls) (storage : CertStorage) :
    BothLeft (eraseFiles calls storage left) (eraseFiles calls storage right) := by
  obtain ⟨hcert, hleft⟩ := removeFile_alike halike (calls.fate 0) kCertFile (certFilePathIn storage)
  obtain ⟨hkey, hrest⟩ := removeFile_alike hleft (calls.fate 1) kKeyFile (keyFilePathIn storage)
  unfold eraseFiles
  exact ⟨congrArg₂ (· <|> ·) hkey hcert, hrest⟩

theorem writePairIn_alike (calls : Calls) (storage : CertStorage)
    {certPem certPem' keyPem keyPem' : Bytes} (hcert : certPem.length = certPem'.length)
    (hkey : keyPem.length = keyPem'.length) :
    BothLeft (writePairIn calls storage certPem keyPem left)
      (writePairIn calls storage certPem' keyPem' right) := by
  have herased := (eraseFiles_alike halike calls storage).2
  obtain ⟨hfirst, hcerted⟩ := writeFile_alike herased (calls.from 2) kCertFile (certFilePathIn storage) hcert
  obtain ⟨hsecond, hkeyed⟩ := writeFile_alike hcerted (calls.from 4) kKeyFile (keyFilePathIn storage) hkey
  unfold writePairIn
  dsimp only
  rw [hfirst]
  split
  · exact ⟨rfl, (eraseFiles_alike hcerted _ _).2⟩
  · rw [hsecond]
    split
    · exact ⟨rfl, (eraseFiles_alike hkeyed _ _).2⟩
    · exact ⟨rfl, hkeyed⟩

theorem ensureFolderIn_alike (fate : Fate) (mounts : Mounts)
    (storage : CertStorage) :
    BothLeft (ensureFolderIn fate mounts storage left) (ensureFolderIn fate mounts storage right) := by
  have hmade := halike.mkdir kCertFolder
  unfold ensureFolderIn
  simp only [ne_eq, halike.find_dir, halike.find_none]
  generalize left.mkdir kCertFolder = made, right.mkdir kCertFolder = made' at hmade ⊢
  split
  · exact ⟨rfl, halike⟩
  · split_ifs
    · exact ⟨rfl, halike⟩
    · cases fate.refused with
      | some status => exact ⟨rfl, halike⟩
      | none =>
        cases hmade with
        | none => exact ⟨rfl, halike⟩
        | some hmade => exact ⟨rfl, hmade⟩
    · exact ⟨rfl, halike⟩

theorem pairPresentIn_alike (calls : Calls) (mounts : Mounts)
    (storage : CertStorage) :
    pairPresentIn calls mounts storage left = pairPresentIn calls mounts storage right := by
  unfold pairPresentIn
  simp only [ne_eq, halike.find_none]

theorem load_cases (calls : Calls) (mounts : Mounts) (storage : CertStorage) :
    (∃ why, load calls mounts storage left = .error why ∧ load calls mounts storage right = .error why) ∨
      ∃ pair pair', load calls mounts storage left = .ok pair ∧ load calls mounts storage right = .ok pair' ∧
        pair.1.length = pair'.1.length ∧ pair.2.length = pair'.2.length ∧
        left.read kCertFile = some pair.1 ∧ right.read kCertFile = some pair'.1 := by
  unfold load
  cases unavailable mounts storage with
  | some reason => exact .inl ⟨_, rfl, rfl⟩
  | none =>
    rcases readFile_cases halike calls kCertFile (certFilePathIn storage) with
      ⟨why, hleft, hright⟩ | ⟨cert, cert', hleft, hright, hcert, hread, hread'⟩
    · rw [hleft, hright]
      exact .inl ⟨_, rfl, rfl⟩
    · rw [hleft, hright]
      rcases readFile_cases halike (calls.from 2) kKeyFile (keyFilePathIn storage) with
        ⟨why, hkey, hkey'⟩ | ⟨key, key', hkey, hkey', hlength, -, -⟩
      · rw [hkey, hkey']
        exact .inl ⟨_, rfl, rfl⟩
      · rw [hkey, hkey']
        exact .inr ⟨(cert, key), (cert', key'), rfl, rfl, hcert, hlength, hread, hread'⟩

end

theorem load_same (hcert : left.read kCertFile = right.read kCertFile)
    (hkey : left.read kKeyFile = right.read kKeyFile) (calls : Calls) :
    load calls mounts storage left = load calls mounts storage right := by
  unfold load
  rw [readFile_same hcert, readFile_same hkey]

theorem readCertificate_same (hcert : left.read kCertFile = right.read kCertFile) (calls : Calls) :
    readCertificate calls mounts storage left = readCertificate calls mounts storage right := by
  unfold readCertificate
  rw [readFile_same hcert]

theorem info_alike (halike : Files.Alike left right) (hcert : left.read kCertFile = right.read kCertFile)
    (calls : Calls) (crypto : Crypto) (now : Int) :
    info calls mounts storage left crypto now = info calls mounts storage right crypto now := by
  unfold info
  dsimp only
  rw [readFile_same hcert]
  rcases readFile_cases halike (calls.from 2) kKeyFile (keyFilePathIn storage) with
    ⟨why, hkey, hkey'⟩ | ⟨key, key', hkey, hkey', hlength, -, -⟩
  · rw [hkey, hkey']
  · rw [hkey, hkey']
    dsimp only
    rw [hlength]

theorem erase_alike (halike : Files.Alike left right) (calls : Calls) (mounts : Mounts) (storage : CertStorage) :
    BothLeft (erase calls mounts storage left) (erase calls mounts storage right) := by
  unfold erase
  split
  · exact ⟨rfl, halike⟩
  · exact eraseFiles_alike halike calls storage

theorem generate_alike (halike : Files.Alike left right) (calls : Calls) (mounts : Mounts)
    (storage : CertStorage) (build : CertRequest → Except Bytes (Bytes × Bytes)) (hostName ip : Bytes)
    (years now : Int) :
    BothLeft (generate calls mounts storage left build hostName ip years now)
      (generate calls mounts storage right build hostName ip years now) := by
  obtain ⟨hfirst, hfolder⟩ := ensureFolderIn_alike halike (calls.fate 0) mounts storage
  unfold generate
  split
  · exact ⟨rfl, halike⟩
  · dsimp only
    rw [hfirst]
    split
    · exact ⟨rfl, hfolder⟩
    · split
      · exact ⟨rfl, hfolder⟩
      · exact writePairIn_alike hfolder _ _ rfl rfl

theorem copyTo_alike {volumes volumes' : Bytes → Tree}
    (halike : ∀ volume, Files.Alike (volumes volume) (volumes' volume)) (calls : Calls) (mounts : Mounts)
    (storage target : CertStorage) :
    BothLeft (copyTo calls mounts volumes storage target) (copyTo calls mounts volumes' storage target) := by
  obtain ⟨hfirst, hfolder⟩ := ensureFolderIn_alike (halike (certVolumeId target)) (calls.fate 0) mounts target
  unfold copyTo
  dsimp only
  by_cases htarget : target = storage
  · rw [if_pos htarget, if_pos htarget]
    exact ⟨rfl, halike _⟩
  · rw [if_neg htarget, if_neg htarget, hfirst]
    split
    · exact ⟨rfl, halike _⟩
    · split
      · exact ⟨rfl, hfolder⟩
      · rcases load_cases (halike (certVolumeId storage)) (calls.from 1) mounts storage with
          ⟨why, hleft, hright⟩ | ⟨pair, pair', hleft, hright, hcert, hkey, -, -⟩
        · rw [hleft, hright]
          exact ⟨rfl, hfolder⟩
        · rw [hleft, hright]
          exact writePairIn_alike hfolder _ _ hcert hkey

variable {tree : Tree}

theorem writeFile_read (hwritten : (writeFile calls tree file path text).1 = none) :
    (writeFile calls tree file path text).2.read file = some text := by
  unfold writeFile at hwritten ⊢
  split_ifs at hwritten ⊢ with hopen
  by_cases hfailed : (calls.fate 1).refused.isSome
  · simp only [hfailed, if_true] at hwritten
    split at hwritten <;> cases hwritten
  · simp only [hfailed] at hwritten ⊢
    split at hwritten
    case h_1 => cases hwritten
    case h_2 written hwrite =>
      rw [FileTree.read_eq_some_iff, (FileTree.write_spec hwrite).2, if_pos rfl, if_neg Bool.false_ne_true]

theorem writeFile_read_other (hother : file ≠ kCertFile) :
    (writeFile calls tree file path text).2.read kCertFile = tree.read kCertFile := by
  unfold writeFile
  split_ifs
  · rfl
  · dsimp only
    split
    case h_1 => rfl
    case h_2 written hwrite =>
      rw [FileTree.read, (FileTree.write_spec hwrite).2, if_neg hother.symm]
      rfl

theorem removeFile_find {fate : Fate} (hremoved : (removeFile fate tree file path).1 = none) :
    (removeFile fate tree file path).2.find file = none := by
  unfold removeFile at hremoved ⊢
  split_ifs at hremoved ⊢ with hfate hnone
  · exact hnone
  · split at hremoved
    case h_1 => cases hremoved
    case h_2 left hleft => rw [(FileTree.unlink_spec hleft).2, if_pos rfl]

theorem removeFile_find_other {fate : Fate} (hother : file ≠ kCertFile) :
    (removeFile fate tree file path).2.find kCertFile = tree.find kCertFile := by
  unfold removeFile
  split_ifs
  · rfl
  · rfl
  · split
    case h_1 => rfl
    case h_2 left hleft => rw [(FileTree.unlink_spec hleft).2, if_neg hother.symm]

theorem writePairIn_cert {certPem keyPem : Bytes}
    (hwritten : (writePairIn calls storage certPem keyPem tree).1 = none) :
    (writePairIn calls storage certPem keyPem tree).2.read kCertFile = some certPem := by
  unfold writePairIn at hwritten ⊢
  dsimp only at hwritten ⊢
  split at hwritten
  case h_1 => cases hwritten
  case h_2 hcert =>
    split at hwritten
    case h_1 => cases hwritten
    case h_2 hkey =>
      rw [writeFile_read_other (by decide), writeFile_read hcert]

theorem eraseFiles_cert (herased : (eraseFiles calls storage tree).1 = none) :
    (eraseFiles calls storage tree).2.read kCertFile = none := by
  unfold eraseFiles at herased ⊢
  dsimp only at herased ⊢
  have hcert : (removeFile (calls.fate 0) tree kCertFile (certFilePathIn storage)).1 = none := by
    revert herased
    cases (removeFile (calls.fate 1) _ kKeyFile (keyFilePathIn storage)).1 with
    | none => exact fun herased ↦ herased
    | some why => rintro ⟨⟩
  rw [FileTree.read, removeFile_find_other (by decide), removeFile_find hcert]

theorem generate_cert {build : CertRequest → Except Bytes (Bytes × Bytes)} {hostName ip : Bytes}
    {years now : Int} (hmade : (generate calls mounts storage tree build hostName ip years now).1 = none) :
    ∃ request pair, certRequest mounts storage hostName ip years now = .ok request ∧
      build request = .ok pair ∧
        (generate calls mounts storage tree build hostName ip years now).2.read kCertFile = some pair.1 := by
  unfold generate at hmade ⊢
  split at hmade
  case h_1 => cases hmade
  case h_2 request hrequest =>
    dsimp only at hmade ⊢
    split at hmade
    case h_1 => cases hmade
    case h_2 hfolder =>
      split at hmade
      case h_1 => cases hmade
      case h_2 pair hbuild => exact ⟨request, pair, hrequest, hbuild, writePairIn_cert hmade⟩

theorem copyTo_cert {volumes : Bytes → Tree} {target : CertStorage} (htarget : target ≠ storage)
    (hcopied : (copyTo calls mounts volumes storage target).1 = none) :
    (copyTo calls mounts volumes storage target).2.read kCertFile =
      (volumes (certVolumeId storage)).read kCertFile := by
  unfold copyTo at hcopied ⊢
  dsimp only at hcopied ⊢
  rw [if_neg htarget] at hcopied ⊢
  split at hcopied
  case h_1 => cases hcopied
  case h_2 =>
    split at hcopied
    case h_1 => cases hcopied
    case h_2 =>
      split at hcopied
      case h_1 => cases hcopied
      case h_2 pair hload =>
        rw [writePairIn_cert hcopied]
        rcases load_cases (Files.Alike.refl (volumes (certVolumeId storage))) (calls.from 1) mounts storage with
          ⟨why, hfails, -⟩ | ⟨same, _, hloads, -, -, -, hread, -⟩
        · rw [hload] at hfails
          cases hfails
        · rw [hload] at hloads
          cases hloads
          exact hread.symm

end DhcpServer.Security.CertStore
