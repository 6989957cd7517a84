import DhcpServer.Web.AuthManager

/-!
# The credentials of a header

`verify` decodes the text behind the scheme into a buffer of 256 bytes and takes as many bytes from
there as the decoder reports. A decoder that finds the buffer too small writes nothing and reports the
room it needs, so the bytes come from the stack then. What was decoded is cut at its first colon.
-/

namespace DhcpServer.Web.AuthManager

open Library List

/-- What `mbedtls_base64_decode` makes of a text: nothing where a character is not of the alphabet. -/
structure Base64 where
  decoded : Bytes → Option Bytes
  /-- the room it asks for, which is that of the last group as if it were whole -/
  needed : Bytes → Nat
  length_le_needed : ∀ text bytes, decoded text = some bytes → bytes.length ≤ needed text
  empty : decoded [] = some [] ∧ needed [] = 0

def kDecodedRoom : Nat := 256

variable (base64 : Base64)

/-- The memory from the buffer on after a call, and `olen`, which stays zero where the text is
refused. -/
def base64Decode (memory : Buffer) (text : Bytes) : Buffer × Nat :=
  match base64.decoded text with
  | none => (memory, 0)
  | some bytes =>
    if kDecodedRoom < base64.needed text then (memory, base64.needed text)
    else (fun place ↦ (bytes[place]?).getD (memory place), bytes.length)

def credentials (memory : Buffer) (text : Bytes) : Bytes :=
  let (memory, decodedLen) := base64Decode base64 memory text
  slice memory 0 decodedLen

/-- The header is the scheme and a text that decodes to the name, a colon and the password. -/
def Carries (settings : Settings) (authHeader : Bytes) : Prop :=
  ∃ text, authHeader = kBasicPrefix ++ text ∧
    base64.decoded text = some (settings.username ++ 0x3A :: settings.password)

def decodedCount (text : Bytes) : Nat :=
  if kDecodedRoom < base64.needed text then 0 else ((base64.decoded text).getD []).length

def ComparesDecoded (memory : Buffer) (authHeader : Bytes) : Prop :=
  ∀ text, authHeader = kBasicPrefix ++ text → (base64Decode base64 memory text).2 ≤ decodedCount base64 text

variable {base64} {settings : Settings} {memory : Buffer} {text bytes authHeader : Bytes}

theorem slice_decoded (hdecoded : base64.decoded text = some bytes)
    (hroom : base64.needed text ≤ kDecodedRoom) : credentials base64 memory text = bytes := by
  rw [credentials, base64Decode, hdecoded]
  simp only [if_neg (Nat.not_lt.mpr hroom)]
  apply ext_getElem
  · simp [slice]
  · intro place hplace _
    simp only [slice, getElem_map, getElem_range, Nat.zero_add]
    rw [getElem?_eq_getElem, Option.getD_some]

theorem credentials_of_refused (hdecoded : base64.decoded text = none) :
    credentials base64 memory text = [] := by
  rw [credentials, base64Decode, hdecoded]
  rfl

theorem cut_at_colon {user password : Bytes} : (match bytes.idxOf? 0x3A with
      | none => false
      | some colonPos => bytes.take colonPos == user && bytes.drop (colonPos + 1) == password) = true ↔
      0x3A ∉ user ∧ bytes = user ++ 0x3A :: password := by
  constructor
  · intro hcut
    split at hcut
    · cases hcut
    · rename_i colonPos hcolon
      obtain ⟨hbound, hat, hbefore⟩ := idxOf?_eq_some_iff.mp hcolon
      simp only [Bool.and_eq_true, beq_iff_eq] at hcut
      obtain ⟨rfl, rfl⟩ := hcut
      constructor
      · intro hmem
        obtain ⟨place, hplace, heq⟩ := mem_take_iff_getElem.mp hmem
        exact hbefore place (by omega) heq
      · rw [← hat, getElem_cons_drop, take_append_drop]
  · rintro ⟨huser, rfl⟩
    have hcolon : (user ++ 0x3A :: password).idxOf? 0x3A = some user.length := by
      refine idxOf?_eq_some_iff.mpr ⟨by simp, by simp, fun place hplace heq ↦ ?_⟩
      rw [getElem_append_left hplace] at heq
      exact huser (heq ▸ getElem_mem hplace)
    rw [hcolon]
    simp

theorem credentialsMatch_iff {decode : Bytes → Bytes} (hheader : authHeader = kBasicPrefix ++ text) :
    credentialsMatch settings decode authHeader = true ↔
      0x3A ∉ settings.username ∧ decode text = settings.username ++ 0x3A :: settings.password := by
  have hdrop : authHeader.drop kBasicPrefix.length = text := by
    rw [hheader, drop_left]
  rw [credentialsMatch, hdrop]
  exact cut_at_colon

theorem countsAsFailedAttempt_iff :
    countsAsFailedAttempt authHeader = true ↔ ∃ text, text ≠ [] ∧ authHeader = kBasicPrefix ++ text := by
  rw [countsAsFailedAttempt, Bool.and_eq_true, decide_eq_true_eq, isPrefixOf_iff_prefix]
  constructor
  · rintro ⟨hlength, text, rfl⟩
    refine ⟨text, ?_, rfl⟩
    rintro rfl
    simp at hlength
  · rintro ⟨text, hfilled, rfl⟩
    have hpos := length_pos_iff.mpr hfilled
    exact ⟨by simpa using hpos, prefix_append _ _⟩

/-- Without a lockout a call succeeds exactly if what was taken from the memory is the name without a
colon in it, a colon and the password. -/
theorem granted_iff {decode : Bytes → Bytes} {attempts : FailedAttempts} {attempt : Attempt}
    (hopen : (isLockedOut settings (getCurrentTimeSec attempt.seconds)
      (cleanupExpired settings (getCurrentTimeSec attempt.seconds) attempts) attempt.clientIp).2 = false) :
    (verify settings decode attempts attempt).granted = true ↔
      ∃ text, text ≠ [] ∧ attempt.authHeader = kBasicPrefix ++ text ∧ 0x3A ∉ settings.username ∧
        decode text = settings.username ++ 0x3A :: settings.password := by
  have hgranted : (verify settings decode attempts attempt).granted =
      (countsAsFailedAttempt attempt.authHeader &&
        credentialsMatch settings decode attempt.authHeader) := by
    unfold verify
    simp only [hopen]
    cases countsAsFailedAttempt attempt.authHeader <;>
      cases credentialsMatch settings decode attempt.authHeader <;> rfl
  rw [hgranted, Bool.and_eq_true, countsAsFailedAttempt_iff]
  constructor
  · rintro ⟨⟨text, hfilled, hheader⟩, hmatch⟩
    exact ⟨text, hfilled, hheader, (credentialsMatch_iff hheader).mp hmatch⟩
  · rintro ⟨text, hfilled, hheader, hmatch⟩
    exact ⟨⟨text, hfilled, hheader⟩, (credentialsMatch_iff hheader).mpr hmatch⟩

/-- The text behind the scheme asks for no more room than there is. -/
def Fits (base64 : Base64) (authHeader : Bytes) : Prop :=
  ∀ text bytes, authHeader = kBasicPrefix ++ text → base64.decoded text = some bytes →
    base64.needed text ≤ kDecodedRoom

theorem comparesDecoded_iff : ComparesDecoded base64 memory authHeader ↔ Fits base64 authHeader := by
  constructor
  · intro hcompares text bytes hheader hdecoded
    by_contra hroom
    have hcount := hcompares text hheader
    rw [base64Decode, decodedCount, hdecoded, if_pos (Nat.not_le.mp hroom)] at hcount
    simp only [if_pos (Nat.not_le.mp hroom)] at hcount
    omega
  · intro hfits text hheader
    cases hdecoded : base64.decoded text with
    | none =>
      rw [base64Decode, hdecoded]
      exact Nat.zero_le _
    | some bytes =>
      have hroom := Nat.not_lt.mpr (hfits text bytes hheader hdecoded)
      rw [base64Decode, decodedCount, hdecoded, if_neg hroom]
      simp only [if_neg hroom]
      exact le_refl _

theorem credentials_iff (hfits : Fits base64 authHeader) (hheader : authHeader = kBasicPrefix ++ text)
    {user password : Bytes} : credentials base64 memory text = user ++ 0x3A :: password ↔
      base64.decoded text = some (user ++ 0x3A :: password) := by
  cases hdecoded : base64.decoded text with
  | none =>
    rw [credentials_of_refused hdecoded]
    simp
  | some bytes =>
    rw [slice_decoded hdecoded (hfits text bytes hheader hdecoded), Option.some.injEq]

/-- A login that no lockout stops is judged by the decoded credentials and nothing else exactly if
they fit into the buffer and are not those of a name with a colon in it. -/
theorem verify_exact_iff (base64 : Base64) (settings : Settings) (memory : Buffer)
    (attempts : FailedAttempts) (attempt : Attempt)
    (hopen : (isLockedOut settings (getCurrentTimeSec attempt.seconds)
      (cleanupExpired settings (getCurrentTimeSec attempt.seconds) attempts) attempt.clientIp).2 = false) :
    (((verify settings (credentials base64 memory) attempts attempt).granted = true ↔
        Carries base64 settings attempt.authHeader) ∧
      ComparesDecoded base64 memory attempt.authHeader) ↔
    Fits base64 attempt.authHeader ∧
      (0x3A ∈ settings.username → ¬ Carries base64 settings attempt.authHeader) := by
  rw [comparesDecoded_iff, granted_iff hopen, and_comm]
  refine and_congr_right fun hfits ↦ ?_
  constructor
  · rintro hexact hcolon hcarries
    obtain ⟨text, -, -, hfree, -⟩ := hexact.mpr hcarries
    exact hfree hcolon
  · intro hname
    constructor
    · rintro ⟨text, -, hheader, -, hread⟩
      exact ⟨text, hheader, (credentials_iff hfits hheader).mp hread⟩
    · rintro ⟨text, hheader, hdecoded⟩
      refine ⟨text, ?_, hheader, fun hcolon ↦ hname hcolon ⟨text, hheader, hdecoded⟩,
        (credentials_iff hfits hheader).mpr hdecoded⟩
      rintro rfl
      rw [base64.empty.1] at hdecoded
      simp at hdecoded

def sextet (byte : UInt8) : Option Nat :=
  if 0x41 ≤ byte ∧ byte ≤ 0x5A then some (byte.toNat - 0x41)
  else if 0x61 ≤ byte ∧ byte ≤ 0x7A then some (byte.toNat - 0x61 + 26)
  else if 0x30 ≤ byte ∧ byte ≤ 0x39 then some (byte.toNat - 0x30 + 52)
  else if byte = 0x2B then some 62
  else if byte = 0x2F then some 63
  else none

def groupBytes (first second third fourth : Nat) : Bytes :=
  let group := ((first * 64 + second) * 64 + third) * 64 + fourth
  [UInt8.ofNat (group / 65536), UInt8.ofNat (group / 256), UInt8.ofNat group]

def padding : UInt8 := 0x3D

/-- Groups of four characters without white space, the last one padded. -/
def decodeGroups : Bytes → Option Bytes
  | [] => some []
  | a :: b :: c :: d :: rest => do
    let first ← sextet a
    let second ← sextet b
    if d = padding ∧ rest = [] then
      if c = padding then return (groupBytes first second 0 0).take 1
      else return (groupBytes first second (← sextet c) 0).take 2
    else
      let third ← sextet c
      let fourth ← sextet d
      return groupBytes first second third fourth ++ (← decodeGroups rest)
  | _ => none

def wholeGroups : Base64 where
  decoded := decodeGroups
  needed text := ((decodeGroups text).getD []).length
  length_le_needed := by
    intro text bytes hdecoded
    rw [hdecoded]
    exact le_refl _
  empty := ⟨rfl, rfl⟩

def adminSettings : Settings := ⟨ascii "admin", ascii "admin", 5, 300⟩

def headerCall (authHeader : Bytes) : Attempt := ⟨10, authHeader, ascii "192.168.4.2", true⟩

theorem verify_exact_sample : ((verify adminSettings (credentials wholeGroups fun _ ↦ 0) (fun _ ↦ none)
        (headerCall (ascii "Basic YWRtaW46YWRtaW4="))).granted = true ↔
      Carries wholeGroups adminSettings (ascii "Basic YWRtaW46YWRtaW4=")) ∧
    ComparesDecoded wholeGroups (fun _ ↦ 0) (ascii "Basic YWRtaW46YWRtaW4=") := by
  refine (verify_exact_iff wholeGroups adminSettings (fun _ ↦ 0) (fun _ ↦ none)
    (headerCall (ascii "Basic YWRtaW46YWRtaW4=")) rfl).mpr ⟨?_, fun hcolon ↦ absurd hcolon (by decide)⟩
  intro text bytes hheader hdecoded
  have htext : text = ascii "YWRtaW46YWRtaW4=" := append_cancel_left hheader.symm
  subst htext
  decide

/-- 258 bytes in 344 characters. -/
def oversizedHeader : Bytes := kBasicPrefix ++ List.replicate 344 0x41

def colonSettings : Settings := ⟨ascii "a:b", ascii "c", 5, 300⟩

/-- `a:b:c`. -/
def colonHeader : Bytes := ascii "Basic YTpiOmM="

/-- The comparison takes the bytes of an oversized header from the stack, and a name with a colon in
it does not get in. -/
theorem credentials_not_exact : ¬ (((verify adminSettings (credentials wholeGroups fun _ ↦ 0) (fun _ ↦ none)
          (headerCall oversizedHeader)).granted = true ↔
        Carries wholeGroups adminSettings oversizedHeader) ∧
      ComparesDecoded wholeGroups (fun _ ↦ 0) oversizedHeader) ∧
    ¬ (((verify colonSettings (credentials wholeGroups fun _ ↦ 0) (fun _ ↦ none)
          (headerCall colonHeader)).granted = true ↔ Carries wholeGroups colonSettings colonHeader) ∧
      ComparesDecoded wholeGroups (fun _ ↦ 0) colonHeader) := by
  constructor
  · rintro ⟨-, hcompares⟩
    have hfits := comparesDecoded_iff.mp hcompares (List.replicate 344 0x41) (List.replicate 258 0) rfl
      (by decide +kernel)
    revert hfits
    decide +kernel
  · rintro ⟨hexact, -⟩
    obtain ⟨text, -, -, hcolon, -⟩ := (granted_iff rfl).mp
      (hexact.mpr ⟨ascii "YTpiOmM=", rfl, by decide⟩)
    exact hcolon (by decide)

end DhcpServer.Web.AuthManager
