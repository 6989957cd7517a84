import DhcpServer.Security.CertRequests
import DhcpServer.Security.KeyInStore

/-!
# What the certificate requests show of the key

Two devices whose volumes are alike answer every certificate request in the same way, as long as the
certificate it is about is the same on both. A switch of HTTPS also tries the key where the TLS server is not
running.
-/

namespace DhcpServer.Security

open Library Files Web.Json

/-- Two keepers that differ in nothing but the bytes of files. -/
structure Keeper.Alike (left right : Keeper) : Prop where
  volumes : ∀ volume, Files.Alike (left.volumes volume) (right.volumes volume)
  storage : left.storage = right.storage
  certName : left.certName = right.certName
  serverIp : left.serverIp = right.serverIp
  httpsEnabled : left.httpsEnabled = right.httpsEnabled
  certGenJob : left.certGenJob = right.certGenJob
  httpsSwitches : left.httpsSwitches = right.httpsSwitches

def BothKept {Result : Type} (result result' : Result × Keeper) : Prop :=
  result.1 = result'.1 ∧ result.2.Alike result'.2

def Keeper.certOn (keeper : Keeper) (storage : CertStorage) : Option Bytes :=
  (keeper.volumes (certVolumeId storage)).read kCertFile

variable {crypto : Crypto} {moment : CertMoment} {left right : Keeper} {body : Bytes}

namespace Keeper.Alike

theorem tree (halike : left.Alike right) : Files.Alike left.tree right.tree := by
  unfold Keeper.tree
  rw [halike.storage]
  exact halike.volumes _

theorem setTree (halike : left.Alike right) (storage : CertStorage) {tree tree' : Tree}
    (htree : Files.Alike tree tree') : (left.setTree storage tree).Alike (right.setTree storage tree') := by
  refine ⟨fun other ↦ ?_, halike.storage, halike.certName, halike.serverIp, halike.httpsEnabled,
    halike.certGenJob, halike.httpsSwitches⟩
  dsimp only [Keeper.setTree]
  rw [Function.update_apply, Function.update_apply]
  split_ifs
  · exact htree
  · exact halike.volumes other

theorem withStorage (halike : left.Alike right) (storage : CertStorage) :
    { left with storage }.Alike { right with storage } :=
  ⟨halike.volumes, rfl, halike.certName, halike.serverIp, halike.httpsEnabled, halike.certGenJob,
    halike.httpsSwitches⟩

end Keeper.Alike

theorem certOn_setTree (keeper : Keeper) (storage : CertStorage) (tree : Tree) :
    (keeper.setTree storage tree).certOn storage = tree.read kCertFile := by
  simp [Keeper.certOn, Keeper.setTree]

section

variable (halike : left.Alike right)
include halike

theorem infoAt_same (hcert : left.certOn left.storage = right.certOn left.storage)
    (first : Nat) : infoAt crypto moment left first = infoAt crypto moment right first := by
  unfold infoAt Keeper.tree
  rw [← halike.storage]
  exact CertStore.info_alike (halike.volumes _) hcert _ _ _

theorem canServe_same (hcert : left.certOn left.storage = right.certOn left.storage)
    (first : Nat) : canServe crypto moment left first = canServe crypto moment right first := by
  rw [canServe, canServe, infoAt_same halike hcert]

theorem volumePayload_alike (first : Nat) (storage : CertStorage) :
    volumePayload moment left first storage = volumePayload moment right first storage := by
  rw [volumePayload, volumePayload, halike.storage, CertStore.pairPresentIn_alike (halike.volumes _)]

theorem handleGetCertificates_same (hcert : left.certOn left.storage = right.certOn left.storage) :
    handleGetCertificates crypto moment left = handleGetCertificates crypto moment right := by
  unfold handleGetCertificates
  rw [infoAt_same halike hcert, canServe_same halike hcert, volumePayload_alike halike,
    volumePayload_alike halike, halike.storage, halike.httpsEnabled, halike.certName, halike.serverIp]

theorem handleGetCertificateDownload_same (hcert : left.certOn left.storage = right.certOn left.storage) :
    handleGetCertificateDownload moment left = handleGetCertificateDownload moment right := by
  unfold handleGetCertificateDownload Keeper.tree
  rw [← halike.storage, CertStore.readCertificate_same hcert]

theorem runGenerator_alike (job : CertGenJob) :
    BothKept (runGenerator moment left job) (runGenerator moment right job) := by
  obtain ⟨hwhy, htree⟩ := CertStore.generate_alike halike.tree moment.calls moment.mounts right.storage
    moment.build job.name job.ip job.years moment.now
  unfold runGenerator
  rw [halike.storage]
  exact ⟨hwhy, halike.setTree _ htree⟩

theorem runCertificateGeneration_alike (job : CertGenJob) :
    BothKept (runCertificateGeneration moment left job) (runCertificateGeneration moment right job) := by
  unfold runCertificateGeneration
  rw [halike.certGenJob]
  by_cases hrunning : right.certGenJob.isSome
  · rw [if_pos hrunning, if_pos hrunning]
    exact ⟨rfl, halike⟩
  · rw [if_neg hrunning, if_neg hrunning]
    split
    · exact ⟨rfl, halike⟩
    · split_ifs
      · exact ⟨rfl, halike.volumes, halike.storage, halike.certName, halike.serverIp, halike.httpsEnabled,
          rfl, halike.httpsSwitches⟩
      · exact runGenerator_alike halike job

theorem postGenerate_alike (body : Bytes) :
    BothKept (postGenerate moment left body) (postGenerate moment right body) := by
  unfold postGenerate
  dsimp only
  rw [halike.certName, halike.serverIp]
  obtain ⟨hwhy, hmade⟩ :
      BothKept (runCertificateGeneration moment left _) (runCertificateGeneration moment right _) :=
    runCertificateGeneration_alike halike
    { name := if jsonGetStr body (ascii "name") = [] then right.certName else jsonGetStr body (ascii "name")
      ip := right.serverIp
      years := jsonGetInt body (ascii "years") kValidityYears }
  rw [hwhy]
  split
  · exact ⟨rfl, hmade⟩
  · exact ⟨rfl, hmade.volumes, hmade.storage, rfl, hmade.serverIp, hmade.httpsEnabled, hmade.certGenJob,
      hmade.httpsSwitches⟩

theorem postDelete_alike : BothKept (postDelete moment left) (postDelete moment right) := by
  obtain ⟨hwhy, htree⟩ := CertStore.erase_alike halike.tree moment.calls moment.mounts right.storage
  unfold postDelete
  rw [halike.storage]
  exact ⟨hwhy, halike.setTree _ htree⟩

theorem copiesPair_alike (body : Bytes) (target : CertStorage) :
    copiesPair moment left body target = copiesPair moment right body target := by
  unfold copiesPair
  rw [CertStore.pairPresentIn_alike halike.tree, CertStore.pairPresentIn_alike (halike.volumes _),
    halike.storage]

theorem postStorage_alike (body : Bytes) :
    BothKept (postStorage moment left body) (postStorage moment right body) := by
  unfold postStorage
  split
  · exact ⟨rfl, halike⟩
  · rename_i target _
    obtain ⟨hwhy, htree⟩ := CertStore.copyTo_alike halike.volumes (moment.calls.from 4) moment.mounts
      right.storage target
    rw [copiesPair_alike halike, halike.storage]
    by_cases htarget : target = right.storage
    · rw [if_pos htarget, if_pos htarget]
      exact ⟨rfl, halike⟩
    rw [if_neg htarget, if_neg htarget]
    by_cases hcopies : copiesPair moment right body target
    · rw [if_pos hcopies, if_pos hcopies]
      dsimp only
      rw [hwhy]
      split
      · exact ⟨rfl, halike.setTree _ htree⟩
      · exact ⟨rfl, (halike.setTree _ htree).withStorage target⟩
    · rw [if_neg hcopies, if_neg hcopies]
      exact ⟨rfl, halike.withStorage target⟩

theorem certAction_alike (body : Bytes) :
    BothKept (certAction moment left body) (certAction moment right body) := by
  unfold certAction
  dsimp only
  split_ifs
  · exact ⟨rfl, halike⟩
  · exact postGenerate_alike halike body
  · exact postDelete_alike halike
  · exact postStorage_alike halike body
  · exact ⟨rfl, halike⟩

end

/-- The volume whose certificate a change makes that of the device, unless the change makes it anew. -/
def keptCert (moment : CertMoment) (keeper : Keeper) (body : Bytes) : Option CertStorage :=
  if jsonGetStr body (ascii "action") = ascii "storage" then
    (certStorageFromName (jsonGetStr body (ascii "storage"))).map fun target ↦
      if copiesPair moment keeper body target then keeper.storage else target
  else none

theorem runGenerator_cert {keeper : Keeper} {job : CertGenJob}
    (hmade : (runGenerator moment keeper job).1 = none) :
    ∃ request pair,
      CertStore.certRequest moment.mounts keeper.storage job.name job.ip job.years moment.now = .ok request ∧
        moment.build request = .ok pair ∧
          (runGenerator moment keeper job).2.certOn keeper.storage = some pair.1 := by
  obtain ⟨request, pair, hrequest, hbuild, hcert⟩ := CertStore.generate_cert hmade
  exact ⟨request, pair, hrequest, hbuild, (certOn_setTree keeper keeper.storage _).trans hcert⟩

section

variable (halike : left.Alike right)
include halike

theorem runCertificateGeneration_cert {job : CertGenJob}
    (hmade : (runCertificateGeneration moment left job).1 = none) :
    (runCertificateGeneration moment left job).2.certOn (runCertificateGeneration moment left job).2.storage =
      (runCertificateGeneration moment right job).2.certOn
        (runCertificateGeneration moment right job).2.storage := by
  have hgenerator {keeper : Keeper} (hmade : (runCertificateGeneration moment keeper job).1 = none) :
      runCertificateGeneration moment keeper job = runGenerator moment keeper job := by
    unfold runCertificateGeneration at hmade ⊢
    by_cases hrunning : keeper.certGenJob.isSome
    · rw [if_pos hrunning] at hmade
      cases hmade
    · rw [if_neg hrunning] at hmade ⊢
      cases hgenerator : moment.noGenerator with
      | some why =>
        rw [hgenerator] at hmade
        cases hmade
      | none =>
        rw [hgenerator] at hmade
        split_ifs at hmade ⊢
        rfl
  have hleft := hgenerator hmade
  have hmade' := (runCertificateGeneration_alike halike job).1.symm.trans hmade
  have hright := hgenerator hmade'
  rw [hleft] at hmade ⊢
  rw [hright] at hmade' ⊢
  obtain ⟨request, pair, hrequest, hbuild, hcert⟩ := runGenerator_cert hmade
  obtain ⟨request', pair', hrequest', hbuild', hcert'⟩ := runGenerator_cert hmade'
  rw [halike.storage, hrequest'] at hrequest
  cases hrequest
  rw [hbuild] at hbuild'
  obtain rfl := Except.ok.inj hbuild'
  exact hcert.trans hcert'.symm

theorem postGenerate_cert (hmade : (postGenerate moment left body).1 = none) :
    (postGenerate moment left body).2.certOn (postGenerate moment left body).2.storage =
      (postGenerate moment right body).2.certOn (postGenerate moment right body).2.storage := by
  unfold postGenerate at hmade ⊢
  dsimp only at hmade ⊢
  rw [halike.certName, halike.serverIp] at hmade ⊢
  split at hmade
  case h_1 => cases hmade
  case h_2 hgenerated =>
    have hcert := runCertificateGeneration_cert halike hgenerated
    have hgenerated' := (runCertificateGeneration_alike halike _).1.symm.trans hgenerated
    rw [hgenerated']
    exact hcert

theorem postDelete_cert (hgone : (postDelete moment left).1 = none) :
    (postDelete moment left).2.certOn (postDelete moment left).2.storage =
      (postDelete moment right).2.certOn (postDelete moment right).2.storage := by
  have hnone {keeper : Keeper} (hgone : (postDelete moment keeper).1 = none) :
      (postDelete moment keeper).2.certOn (postDelete moment keeper).2.storage = none := by
    refine (certOn_setTree keeper keeper.storage _).trans ?_
    unfold postDelete CertStore.erase at hgone
    unfold CertStore.erase
    split at hgone
    case h_1 => cases hgone
    case h_2 => exact CertStore.eraseFiles_cert hgone
  rw [hnone hgone, hnone ((postDelete_alike halike).1.symm.trans hgone)]

theorem postStorage_cert (haction : jsonGetStr body (ascii "action") = ascii "storage")
    (hkept : ∀ storage, keptCert moment left body = some storage → left.certOn storage = right.certOn storage)
    (hmoved : (postStorage moment left body).1 = none) :
    (postStorage moment left body).2.certOn (postStorage moment left body).2.storage =
      (postStorage moment right body).2.certOn (postStorage moment right body).2.storage := by
  rw [keptCert, if_pos haction] at hkept
  have hmoved' := (postStorage_alike halike body).1.symm.trans hmoved
  unfold postStorage at hmoved hmoved' ⊢
  cases hname : certStorageFromName (jsonGetStr body (ascii "storage")) with
  | none =>
    rw [hname] at hmoved
    cases hmoved
  | some target =>
    rw [hname, Option.map_some] at hkept
    have hcert := hkept _ rfl
    rw [hname] at hmoved hmoved'
    dsimp only at hmoved hmoved' ⊢
    rw [← copiesPair_alike halike, ← halike.storage] at hmoved' ⊢
    by_cases htarget : target = left.storage
    · rw [if_pos htarget, if_pos htarget, ← halike.storage, ← htarget]
      rwa [copiesPair, decide_eq_false (not_not.mpr htarget)] at hcert
    · rw [if_neg htarget] at hmoved hmoved'
      rw [if_neg htarget, if_neg htarget]
      by_cases hcopies : copiesPair moment left body target
      · rw [if_pos hcopies] at hmoved hmoved' hcert
        rw [if_pos hcopies, if_pos hcopies]
        split at hmoved
        case h_1 => cases hmoved
        case h_2 hcopied =>
          split at hmoved'
          case h_1 => cases hmoved'
          case h_2 hcopied' =>
            refine (certOn_setTree left target _).trans (.trans ?_ (certOn_setTree right target _).symm)
            rw [CertStore.copyTo_cert htarget hcopied, CertStore.copyTo_cert htarget hcopied']
            exact hcert
      · rw [if_neg hcopies] at hcert
        rw [if_neg hcopies, if_neg hcopies]
        exact hcert

theorem certAction_cert
    (hkept : ∀ storage, keptCert moment left body = some storage → left.certOn storage = right.certOn storage)
    (hdone : (certAction moment left body).1 = none) :
    (certAction moment left body).2.certOn (certAction moment left body).2.storage =
      (certAction moment right body).2.certOn (certAction moment right body).2.storage := by
  unfold certAction at hdone ⊢
  dsimp only at hdone ⊢
  split_ifs at hdone ⊢ with _ _ _ hstorage
  · exact postGenerate_cert halike hdone
  · exact postDelete_cert halike hdone
  · exact postStorage_cert halike hstorage hkept hdone

theorem handlePostCertificates_same
    (hkept : left.httpsEnabled → ∀ storage, keptCert moment left body = some storage →
      left.certOn storage = right.certOn storage) :
    BothKept (handlePostCertificates crypto moment left body)
      (handlePostCertificates crypto moment right body) := by
  obtain ⟨hwhy, hleft⟩ : BothKept (certAction moment left body) (certAction moment right body) :=
    certAction_alike halike body
  unfold handlePostCertificates
  dsimp only
  rw [← hwhy, ← halike.httpsEnabled]
  cases hdone : (certAction moment left body).1 with
  | some why => exact ⟨rfl, hleft⟩
  | none =>
    by_cases hon : left.httpsEnabled
    · have hcert := certAction_cert halike (hkept hon) hdone
      rw [← hleft.storage] at hcert
      rw [if_pos hon, if_pos hon, canServe_same hleft hcert]
      split_ifs
      · exact ⟨rfl, hleft.volumes, hleft.storage, hleft.certName, hleft.serverIp, hleft.httpsEnabled,
          hleft.certGenJob, congrArg (· ++ _) hleft.httpsSwitches⟩
      · exact ⟨rfl, hleft⟩
    · rw [if_neg hon, if_neg hon]
      exact ⟨rfl, hleft⟩

theorem certificateGenerateTask_alike :
    Option.Rel Keeper.Alike (certificateGenerateTask moment left) (certificateGenerateTask moment right) := by
  unfold certificateGenerateTask
  rw [halike.certGenJob]
  cases right.certGenJob with
  | none => exact .none
  | some job =>
    obtain ⟨-, hmade⟩ : BothKept (runGenerator moment left job) (runGenerator moment right job) :=
      runGenerator_alike halike job
    exact .some ⟨hmade.volumes, hmade.storage, hmade.certName, hmade.serverIp, hmade.httpsEnabled, rfl,
      hmade.httpsSwitches⟩

end

def Keeper.key (keeper : Keeper) : Option Bytes := keeper.tree.read kKeyFile

theorem setHttpsEnabled_same (halike : left.Alike right) (enable : Bool)
    (hpair : enable → left.httpsEnabled = false →
      left.certOn left.storage = right.certOn left.storage ∧
        (canServe crypto moment left 0 = true → left.key = right.key)) :
    (setHttpsEnabled crypto moment left enable).Alike (setHttpsEnabled crypto moment right enable) := by
  have hset (value : Bool) : { left with httpsEnabled := value }.Alike { right with httpsEnabled := value } :=
    ⟨halike.volumes, halike.storage, halike.certName, halike.serverIp, rfl, halike.certGenJob,
      halike.httpsSwitches⟩
  unfold setHttpsEnabled
  cases enable with
  | false => exact hset false
  | true =>
    cases hon : left.httpsEnabled with
    | true =>
      have hrunning {keeper : Keeper} (hon : keeper.httpsEnabled = true) :
          (if canServe crypto moment keeper 0 && startHttps crypto moment keeper 4 then
            { keeper with httpsEnabled := true } else keeper) = keeper := by
        split_ifs
        · rw [← hon]
        · rfl
      rw [if_pos rfl, if_pos rfl, hrunning hon, hrunning (halike.httpsEnabled.symm.trans hon)]
      exact halike
    | false =>
      obtain ⟨hcert, hkey⟩ := hpair rfl hon
      have hstart : (canServe crypto moment left 0 && startHttps crypto moment left 4) =
          (canServe crypto moment right 0 && startHttps crypto moment right 4) := by
        rw [← canServe_same halike hcert]
        cases hserve : canServe crypto moment left 0 with
        | false => rfl
        | true =>
          have hsame := hkey hserve
          unfold Keeper.key Keeper.tree at hsame
          unfold Keeper.certOn at hcert
          unfold startHttps Keeper.tree
          rw [← halike.httpsEnabled, ← halike.storage]
          rw [← halike.storage] at hsame
          rw [CertStore.load_same hcert hsame]
      rw [if_pos rfl, if_pos rfl, hstart]
      split_ifs
      · exact hset true
      · exact halike

theorem httpsSwitchTask_same (halike : left.Alike right) (index : Nat)
    (hpair : left.httpsSwitches[index]? = some true → left.httpsEnabled = false →
      left.certOn left.storage = right.certOn left.storage ∧
        (canServe crypto moment left 0 = true → left.key = right.key)) :
    Option.Rel Keeper.Alike (httpsSwitchTask crypto moment left index)
      (httpsSwitchTask crypto moment right index) := by
  unfold httpsSwitchTask
  rw [← halike.httpsSwitches]
  cases hswitch : left.httpsSwitches[index]? with
  | none => exact .none
  | some enable =>
    refine .some (setHttpsEnabled_same ?_ enable fun henable ↦ hpair (by rw [hswitch, henable]))
    exact ⟨halike.volumes, halike.storage, halike.certName, halike.serverIp, halike.httpsEnabled,
      halike.certGenJob, rfl⟩

end DhcpServer.Security
