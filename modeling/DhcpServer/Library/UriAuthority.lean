import DhcpServer.Library.AddressText

/-!
# Authorities of URIs

The part of a URI between `//` and the path: user information, host and port, as the generic syntax has
them. A host is an address in brackets or a registered name; behind it stands nothing or a colon with a
port, and what stands behind it decides whether it is read as that host.
-/

namespace DhcpServer.Library.Uri

open AddressText (colon readIp6)
open List Option

def isLetter (byte : UInt8) : Bool := (0x41 ≤ byte && byte ≤ 0x5A) || (0x61 ≤ byte && byte ≤ 0x7A)

def isDigit (byte : UInt8) : Bool := 0x30 ≤ byte && byte ≤ 0x39

def isHexDigit (byte : UInt8) : Bool := (digitValue 16 byte).isSome

/-- Letters, digits and `- . _ ~`. -/
def isUnreserved (byte : UInt8) : Bool :=
  isLetter byte || isDigit byte || byte == 0x2D || byte == 0x2E || byte == 0x5F || byte == 0x7E

def isSubDelim (byte : UInt8) : Bool := (ascii "!$&'()*+,;=").contains byte

def isRegName : Bytes → Bool
  | [] => true
  | byte :: rest =>
    if byte = 0x25 then
      match rest with
      | high :: low :: rest => isHexDigit high && isHexDigit low && isRegName rest
      | _ => false
    else (isUnreserved byte || isSubDelim byte) && isRegName rest

/-- `v`, a version in hexadecimal digits, a dot, and anything. -/
def isIpFuture : Bytes → Bool
  | [] => false
  | mark :: rest =>
    match rest.dropWhile isHexDigit with
    | [] => false
    | byte :: tail =>
      (mark == 0x76 || mark == 0x56) && rest.takeWhile isHexDigit != [] && byte == 0x2E && tail != [] &&
        tail.all fun byte ↦ isUnreserved byte || isSubDelim byte || byte == colon

def isIpLiteral (text : Bytes) : Bool := (readIp6 text).isSome || isIpFuture text

/-- The port behind a host; without one, or with an empty one, it is that of the scheme. -/
def readPort (default : Nat) : Bytes → Option Nat
  | [] => some default
  | byte :: digits =>
    if byte = colon then if digits = [] then some default else readNumeral 10 digits else none

def readHostPort (default : Nat) : Bytes → Option (Bytes × Nat)
  | [] => some ([], default)
  | byte :: text =>
    if byte = 0x5B then
      let literal := text.takeWhile (· != 0x5D)
      match text.dropWhile (· != 0x5D) with
      | [] => none
      | close :: behind =>
        if isIpLiteral literal then (readPort default behind).map (0x5B :: literal ++ [close], ·) else none
    else
      let name := (byte :: text).takeWhile (· != colon)
      if isRegName name then
        (readPort default ((byte :: text).dropWhile (· != colon))).map (name, ·)
      else none

structure Authority where
  userinfo : Option Bytes
  host : Bytes
  port : Nat

def readAuthority (default : Nat) (text : Bytes) : Option Authority :=
  let before := text.takeWhile (· != 0x40)
  match text.dropWhile (· != 0x40) with
  | [] => (readHostPort default text).map fun (host, port) ↦ ⟨none, host, port⟩
  | _ :: hostPort => (readHostPort default hostPort).map fun (host, port) ↦ ⟨some before, host, port⟩

/-- A slash, a question mark or a number sign ends the authority. -/
def isAuthorityByte (byte : UInt8) : Bool := byte != 0x2F && byte != 0x3F && byte != 0x23

/-- The authority of a URI of a scheme, given with its colon and slashes. -/
def authorityOf (scheme uri : Bytes) : Option Bytes :=
  if scheme <+: uri then some ((uri.drop scheme.length).takeWhile isAuthorityByte) else none

inductive IsHost : Bytes → Prop
  | literal {text : Bytes} (hclose : 0x5D ∉ text) (hliteral : isIpLiteral text = true) :
      IsHost (0x5B :: text ++ [0x5D])
  | name {first : UInt8} {rest : Bytes} (hopen : first ≠ 0x5B) (hcolon : colon ∉ first :: rest)
      (hname : isRegName (first :: rest) = true) : IsHost (first :: rest)

variable {default port : Nat} {host tail text name scheme : Bytes} {byte first : UInt8}

theorem takeWhile_bne_append (hfirst : first ∉ text) (tail : Bytes) :
    (text ++ tail).takeWhile (· != first) = text ++ tail.takeWhile (· != first) :=
  takeWhile_append_of_pos fun _ hbyte ↦ bne_iff_ne.mpr fun hsame ↦ hfirst (hsame ▸ hbyte)

theorem dropWhile_bne_append (hfirst : first ∉ text) (tail : Bytes) :
    (text ++ tail).dropWhile (· != first) = tail.dropWhile (· != first) :=
  dropWhile_append_of_pos fun _ hbyte ↦ bne_iff_ne.mpr fun hsame ↦ hfirst (hsame ▸ hbyte)

theorem notMem_takeWhile_bne (text : Bytes) (first : UInt8) : first ∉ text.takeWhile (· != first) := by
  intro hmem
  have hne := mem_takeWhile_imp hmem
  rw [bne_self_eq_false] at hne
  cases hne

theorem head_dropWhile_bne {rest : Bytes} (hdrop : text.dropWhile (· != first) = byte :: rest) :
    byte = first := by
  have hhead := head?_dropWhile_not (· != first) text
  rw [hdrop] at hhead
  simpa using hhead

theorem readPort_bytes (hport : readPort default tail = some port) :
    tail = [] ∨ ∃ digits, tail = colon :: digits ∧ ∀ byte ∈ digits, isDigit byte := by
  cases tail with
  | nil => exact .inl rfl
  | cons byte digits =>
    rw [readPort] at hport
    split_ifs at hport with hcolon hdigits
    · exact .inr ⟨[], by rw [hcolon, hdigits], by simp⟩
    · refine .inr ⟨digits, by rw [hcolon], fun digit hdigit ↦ ?_⟩
      have hbounds := isSome_digitValue_ten.mp (readNumeral_digits hport digit hdigit)
      rw [isDigit, Bool.and_eq_true, decide_eq_true_eq, decide_eq_true_eq]
      exact hbounds

theorem isHost_of_readHostPort (hne : host ≠ []) (hread : readHostPort default text = some (host, port)) :
    IsHost host ∧ ∃ tail, text = host ++ tail ∧ readPort default tail = some port := by
  cases text with
  | nil =>
    cases hread
    exact absurd rfl hne
  | cons byte text =>
    rw [readHostPort] at hread
    split_ifs at hread with hopen
    · dsimp only at hread
      split at hread
      · cases hread
      · rename_i close behind hdrop
        split_ifs at hread with hliteral
        obtain ⟨same, hport, hpair⟩ := map_eq_some_iff.mp hread
        cases hpair
        obtain rfl := head_dropWhile_bne hdrop
        refine ⟨.literal (notMem_takeWhile_bne text _) hliteral, behind, ?_, hport⟩
        have htext := takeWhile_append_dropWhile (p := (· != 0x5D)) (l := text)
        rw [hdrop] at htext
        rw [hopen, append_assoc, singleton_append, cons_append, htext]
    · dsimp only at hread
      split_ifs at hread with hname
      obtain ⟨same, hport, hpair⟩ := map_eq_some_iff.mp hread
      cases hpair
      obtain ⟨first, rest, hcons⟩ := exists_cons_of_ne_nil hne
      have htext := takeWhile_append_dropWhile (p := (· != colon)) (l := byte :: text)
      have hcolon := notMem_takeWhile_bne (byte :: text) colon
      refine ⟨?_, _, htext.symm, hport⟩
      rw [hcons] at htext hcolon hname ⊢
      have hfirst : first = byte := (cons.inj htext).1
      exact .name (hfirst ▸ hopen) hcolon hname

theorem IsHost.readHostPort_iff (hhost : IsHost host) :
    readHostPort default (host ++ tail) = some (host, port) ↔ readPort default tail = some port := by
  cases hhost with
  | @literal text hclose hliteral =>
    have htext : 0x5B :: text ++ [0x5D] ++ tail = 0x5B :: (text ++ 0x5D :: tail) := by simp
    have htake : (text ++ 0x5D :: tail).takeWhile (· != 0x5D) = text := by
      rw [takeWhile_bne_append hclose, takeWhile_cons_of_neg (by simp), append_nil]
    have hdrop : (text ++ 0x5D :: tail).dropWhile (· != 0x5D) = 0x5D :: tail := by
      rw [dropWhile_bne_append hclose, dropWhile_cons_of_neg (by simp)]
    rw [htext, readHostPort, if_pos rfl]
    rw [htake, hdrop]
    dsimp only
    rw [if_pos hliteral, map_eq_some_iff]
    simp
  | @name first rest hopen hcolon hname =>
    rw [cons_append, readHostPort, if_neg hopen]
    dsimp only
    rw [← cons_append, takeWhile_bne_append hcolon, dropWhile_bne_append hcolon]
    constructor
    · intro hread
      split_ifs at hread with hlonger
      obtain ⟨same, hport, hpair⟩ := map_eq_some_iff.mp hread
      obtain ⟨hsame, rfl⟩ := Prod.mk.inj hpair
      have hnothing : tail.takeWhile (· != colon) = [] := append_right_eq_self.mp hsame
      have htail := takeWhile_append_dropWhile (p := (· != colon)) (l := tail)
      rw [hnothing, nil_append] at htail
      rwa [htail] at hport
    · intro hport
      have hnothing : tail.takeWhile (· != colon) = [] ∧ tail.dropWhile (· != colon) = tail := by
        rcases readPort_bytes hport with rfl | ⟨digits, rfl, -⟩
        · exact ⟨rfl, rfl⟩
        · simp
      rw [hnothing.1, hnothing.2, append_nil, if_pos hname, hport]
      rfl

theorem IsHost.readAuthority_iff (hhost : IsHost host) (hat : 0x40 ∉ host) :
    readAuthority default (host ++ tail) = some ⟨none, host, port⟩ ↔ readPort default tail = some port := by
  rw [← hhost.readHostPort_iff, readAuthority]
  rw [dropWhile_bne_append hat]
  constructor
  · intro hread
    split at hread
    · obtain ⟨⟨other, number⟩, hports, hauthority⟩ := map_eq_some_iff.mp hread
      cases hauthority
      exact hports
    · obtain ⟨⟨other, number⟩, hports, hauthority⟩ := map_eq_some_iff.mp hread
      cases hauthority
  · intro hports
    have htail : tail.dropWhile (· != 0x40) = [] := by
      refine dropWhile_eq_nil_iff.mpr fun byte hbyte ↦ bne_iff_ne.mpr ?_
      rintro rfl
      rcases readPort_bytes (hhost.readHostPort_iff.mp hports) with rfl | ⟨digits, rfl, hdigits⟩
      · cases hbyte
      · rcases mem_cons.mp hbyte with hcolon | hdigit
        · revert hcolon
          decide
        · have hnone := hdigits _ hdigit
          revert hnone
          decide
    rw [htail, hports]
    rfl

theorem authorityOf_append (scheme rest : Bytes) :
    authorityOf scheme (scheme ++ rest) = some (rest.takeWhile isAuthorityByte) := by
  rw [authorityOf, if_pos (prefix_append scheme rest), drop_left]

end DhcpServer.Library.Uri
