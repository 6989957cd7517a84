import DhcpServer.Library.Trim
import DhcpServer.Library.UriAuthority

/-!
# The redirect to the TLS address

`redirect::targetFrom` puts an address together from two texts of a client, the `Host` of its request
and the URI. It stays on the host that the client named where the URI begins with a slash; any other
text at the front of the URI becomes part of the authority.
-/

namespace DhcpServer.Web.Redirect

open Library Uri AddressText List Option

def kDefaultHttpsPort : UInt16 := 443

/-- Neither a space or a control character, nor `<`, `>` or `"`. -/
def isSafe (value : UInt8) : Bool :=
  !(value ≤ 0x20 || value == 0x7F) && !(value == 0x3C || value == 0x3E || value == 0x22)

def keepSafe (text : Bytes) : Bytes := text.filter isSafe

def isUsable (byte : UInt8) : Bool :=
  isLetter byte || isDigit byte || byte == 0x2E || byte == 0x2D || byte == 0x5F || byte == colon ||
    byte == 0x5B || byte == 0x5D

def isUsableHost (name : Bytes) : Bool := name != [] && name.all isUsable

def isBlank (byte : UInt8) : Bool := byte == 0x20 || byte == 0x09

/-- The name without its port, where it can be the host of a URL. -/
def withoutPort : Bytes → Option Bytes
  | [] => none
  | first :: rest =>
    if first = 0x5B then
      let literal := rest.takeWhile (· != 0x5D)
      -- a literal that never closes, or one that opens twice, is not one
      if 0x5D ∉ rest ∨ 0x5B ∈ literal then none else some (0x5B :: literal ++ [0x5D])
    else if 0x5B ∈ rest then none
    else
      let behind := (first :: rest).rtakeWhile (· != colon)
      if colon ∈ first :: rest ∧ behind.all isDigit then
        some ((first :: rest).take ((first :: rest).length - behind.length - 1))
      else some (first :: rest)

/-- The name that the address is built with, where the `Host` is one that can be used. -/
def nameFrom (host : Bytes) : Option Bytes :=
  let name := trimBy isBlank host
  if name = [] then none
  else if !isUsableHost name then none
  else
    match withoutPort name with
    | none => none
    | some name => if name = [] then none else some name

def https : Bytes := ascii "https://"

def portText (httpsPort : UInt16) : Bytes :=
  if httpsPort ≠ kDefaultHttpsPort then colon :: numeral 10 httpsPort.toNat else []

def pathFrom (uri : Bytes) : Bytes := if keepSafe uri = [] then [0x2F] else keepSafe uri

def targetFrom (host uri : Bytes) (httpsPort : UInt16) : Bytes :=
  match nameFrom host with
  | none => []
  | some name => https ++ name ++ portText httpsPort ++ pathFrom uri

/-- The address names the host part of the `Host` value and the TLS port, and nothing else before its
path. -/
structure Names (host : Bytes) (httpsPort : UInt16) (target : Bytes) : Prop where
  authority : ∃ text name port, authorityOf https target = some text ∧
    readHostPort 443 (trimBy isBlank host) = some (name, port) ∧
    readAuthority 443 text = some ⟨none, name, httpsPort.toNat⟩
  safe : ∀ byte ∈ target, isSafe byte = true

def Stays (host : Bytes) (httpsPort : UInt16) (target : Bytes) : Prop :=
  target = [] ∨ Names host httpsPort target

/-- What the URI has before the first `/`, `?` or `#`, when it is cleaned. -/
def authorityTail (uri : Bytes) : Bytes := (keepSafe uri).takeWhile isAuthorityByte

/-- The `Host` value is that of a URL, the URIs go on with the same authority, and what they add to it
leaves the port as it is. With nothing added, it does. -/
structure Fits (host uri other : Bytes) (httpsPort : UInt16) : Prop where
  host : (readHostPort 443 (trimBy isBlank host)).isSome
  same : authorityTail uri = authorityTail other
  port : readPort 443 (portText httpsPort ++ authorityTail uri) = some httpsPort.toNat

variable {host uri other name text : Bytes} {httpsPort : UInt16} {port : Nat} {byte : UInt8}

theorem usable_bounds (husable : isUsable byte) :
    isSafe byte ∧ isAuthorityByte byte ∧ byte ≠ 0x40 := by
  simp only [isUsable, isLetter, isDigit, isSafe, isAuthorityByte, colon, Bool.or_eq_true,
    Bool.and_eq_true, decide_eq_true_eq, beq_iff_eq, bne_iff_ne, ne_eq, Bool.not_eq_true',
    Bool.or_eq_false_iff, decide_eq_false_iff_not, beq_eq_false_iff_ne, UInt8.le_iff_toNat_le,
    ← UInt8.toNat_inj, UInt8.reduceToNat] at husable ⊢
  omega

theorem isUsable_of_mem_portText (hbyte : byte ∈ portText httpsPort) : isUsable byte := by
  unfold portText at hbyte
  split_ifs at hbyte with hport
  · rcases mem_cons.mp hbyte with rfl | hdigit
    · decide
    · have hdecimal := isSome_digitValue_ten.mp
        (readNumeral_digits (readNumeral_numeral (by decide) (by decide) httpsPort.toNat) byte hdigit)
      simp [isUsable, isDigit, hdecimal]
  · cases hbyte

theorem isUsable_of_mem_withoutPort (husable : ∀ byte ∈ text, isUsable byte)
    (hname : withoutPort text = some name) : ∀ byte ∈ name, isUsable byte := by
  intro byte hbyte
  cases text with
  | nil => cases hname
  | cons first rest =>
    rw [withoutPort] at hname
    dsimp only at hname
    split_ifs at hname with hopen hrefused hinside hnumber
    · cases hname
      rcases mem_append.mp hbyte with hfront | hclose
      · rcases mem_cons.mp hfront with rfl | hliteral
        · decide
        · exact husable byte (mem_cons_of_mem _ (( takeWhile_prefix _).subset hliteral))
      · rw [mem_singleton.mp hclose]
        decide
    · cases hname
      exact husable byte (mem_of_mem_take hbyte)
    · cases hname
      exact husable byte hbyte

theorem nameFrom_spec (hname : nameFrom host = some name) :
    name ≠ [] ∧ withoutPort (trimBy isBlank host) = some name ∧ ∀ byte ∈ name, isUsable byte := by
  unfold nameFrom at hname
  dsimp only at hname
  split_ifs at hname with hnil husable
  split at hname
  · cases hname
  · rename_i same hwithout
    split_ifs at hname with hempty
    cases hname
    have hall : ∀ byte ∈ trimBy isBlank host, isUsable byte := by
      rw [Bool.not_eq_true', Bool.not_eq_false, isUsableHost, Bool.and_eq_true, List.all_eq_true] at husable
      exact husable.2
    exact ⟨hempty, hwithout, isUsable_of_mem_withoutPort hall hwithout⟩

theorem targetFrom_some (hname : nameFrom host = some name) (uri : Bytes) (httpsPort : UInt16) :
    targetFrom host uri httpsPort = https ++ (name ++ (portText httpsPort ++ pathFrom uri)) := by
  rw [targetFrom, hname]
  simp only [append_assoc]

theorem takeWhile_pathFrom (uri : Bytes) : (pathFrom uri).takeWhile isAuthorityByte = authorityTail uri := by
  unfold pathFrom authorityTail
  split_ifs with hnil
  · rw [hnil]
    rfl
  · rfl

theorem authorityOf_targetFrom (hname : nameFrom host = some name) (uri : Bytes) (httpsPort : UInt16) :
    authorityOf https (targetFrom host uri httpsPort) =
      some (name ++ (portText httpsPort ++ authorityTail uri)) := by
  obtain ⟨-, -, husable⟩ := nameFrom_spec hname
  rw [targetFrom_some hname, authorityOf_append,
    takeWhile_append_of_pos fun byte hbyte ↦ (usable_bounds (husable byte hbyte)).2.1,
    takeWhile_append_of_pos fun byte hbyte ↦ (usable_bounds (isUsable_of_mem_portText hbyte)).2.1,
    takeWhile_pathFrom]

theorem isSafe_of_mem_targetFrom (hname : nameFrom host = some name) :
    ∀ byte ∈ targetFrom host uri httpsPort, isSafe byte := by
  obtain ⟨-, -, husable⟩ := nameFrom_spec hname
  rw [targetFrom_some hname]
  refine forall_mem_append.mpr ⟨by decide +kernel, forall_mem_append.mpr
    ⟨fun byte hbyte ↦ (usable_bounds (husable byte hbyte)).1, forall_mem_append.mpr
      ⟨fun byte hbyte ↦ (usable_bounds (isUsable_of_mem_portText hbyte)).1, fun byte hbyte ↦ ?_⟩⟩⟩
  unfold pathFrom at hbyte
  split_ifs at hbyte with hnil
  · rw [mem_singleton.mp hbyte]
    decide
  · exact (mem_filter.mp hbyte).2

theorem withoutPort_of_readHostPort (hne : text ≠ [])
    (hread : readHostPort 443 text = some (name, port)) :
    withoutPort text = none ∨ withoutPort text = some name := by
  obtain ⟨first, rest, rfl⟩ := exists_cons_of_ne_nil hne
  rw [readHostPort] at hread
  rw [withoutPort]
  split_ifs at hread ⊢ with hopen hinside
  · dsimp only at hread ⊢
    split_ifs with hrefused
    · exact .inl rfl
    · split at hread
      · cases hread
      · rename_i close behind hdrop
        split_ifs at hread with hliteral
        obtain ⟨same, -, hpair⟩ := map_eq_some_iff.mp hread
        obtain ⟨rfl, -⟩ := Prod.mk.inj hpair
        rw [head_dropWhile_bne hdrop]
        exact .inr rfl
  · exact .inl rfl
  · dsimp only at hread ⊢
    split_ifs at hread with hregName
    obtain ⟨same, hport, hpair⟩ := map_eq_some_iff.mp hread
    obtain ⟨rfl, -⟩ := Prod.mk.inj hpair
    have htext := takeWhile_append_dropWhile (p := (· != colon)) (l := first :: rest)
    have hcolon := notMem_takeWhile_bne (first :: rest) colon
    generalize (first :: rest).takeWhile (· != colon) = name at htext hcolon ⊢
    generalize (first :: rest).dropWhile (· != colon) = tail at htext hport
    rw [← htext]
    rcases readPort_bytes hport with rfl | ⟨digits, rfl, hdigits⟩
    · rw [append_nil, if_neg fun hboth ↦ hcolon hboth.1]
      exact .inr rfl
    · have hbehind : (name ++ colon :: digits).rtakeWhile (· != colon) = digits := by
        have hkeep : ∀ byte ∈ digits.reverse, (byte != colon) := by
          intro byte hbyte
          have hdigit := hdigits byte (mem_reverse.mp hbyte)
          refine bne_iff_ne.mpr ?_
          rintro rfl
          revert hdigit
          decide
        rw [List.rtakeWhile, reverse_append, reverse_cons, append_assoc,
          takeWhile_append_of_pos hkeep, singleton_append,
          takeWhile_cons_of_neg (by simp), append_nil, reverse_reverse]
      have hlength : (name ++ colon :: digits).length - digits.length - 1 = name.length := by
        rw [length_append, length_cons]
        omega
      rw [hbehind, if_pos ⟨by simp, all_eq_true.mpr hdigits⟩, hlength, take_left]
      exact .inr rfl

theorem names_iff (hname : nameFrom host = some name) : Names host httpsPort (targetFrom host uri httpsPort) ↔
    (readHostPort 443 (trimBy isBlank host)).isSome ∧
      readPort 443 (portText httpsPort ++ authorityTail uri) = some httpsPort.toNat := by
  obtain ⟨hne, hwithout, husable⟩ := nameFrom_spec hname
  have hfilled : trimBy isBlank host ≠ [] := by
    intro hempty
    rw [hempty] at hwithout
    cases hwithout
  have hsame {read : Bytes} {number : Nat}
      (hread : readHostPort 443 (trimBy isBlank host) = some (read, number)) : read = name := by
    rcases withoutPort_of_readHostPort hfilled hread with hnone | hsome
    · rw [hnone] at hwithout
      cases hwithout
    · rw [hsome] at hwithout
      exact Option.some.inj hwithout
  have hat : 0x40 ∉ name := fun hmem ↦ (usable_bounds (husable _ hmem)).2.2 rfl
  constructor
  · rintro ⟨⟨text, read, number, htext, hread, hauthority⟩, -⟩
    obtain rfl := hsame hread
    obtain ⟨hhost, -⟩ := isHost_of_readHostPort hne hread
    rw [authorityOf_targetFrom hname] at htext
    cases htext
    exact ⟨by rw [hread]; rfl, (hhost.readAuthority_iff hat).mp hauthority⟩
  · rintro ⟨hsome, hport⟩
    obtain ⟨⟨read, number⟩, hread⟩ := isSome_iff_exists.mp hsome
    obtain rfl := hsame hread
    obtain ⟨hhost, -⟩ := isHost_of_readHostPort hne hread
    exact ⟨⟨_, read, number, authorityOf_targetFrom hname uri httpsPort, hread,
      (hhost.readAuthority_iff hat).mpr hport⟩, isSafe_of_mem_targetFrom hname⟩

theorem targetFrom_ne_nil (hname : nameFrom host = some name) : targetFrom host uri httpsPort ≠ [] := by
  rw [targetFrom_some hname]
  exact cons_ne_nil _ _

/-- Two requests with one `Host` stay on the host it names, and have one authority, exactly when there is
no address for this `Host`, or it is a host with or without a port and what the URIs have in front of
their paths is the same and leaves the port as it is. -/
theorem redirect_stays_iff (host uri other : Bytes) (httpsPort : UInt16) :
    (Stays host httpsPort (targetFrom host uri httpsPort) ∧
      Stays host httpsPort (targetFrom host other httpsPort) ∧
      authorityOf https (targetFrom host uri httpsPort) =
        authorityOf https (targetFrom host other httpsPort)) ↔
      nameFrom host = none ∨ Fits host uri other httpsPort := by
  cases hname : nameFrom host with
  | none =>
    have hnothing (uri : Bytes) : targetFrom host uri httpsPort = [] := by rw [targetFrom, hname]
    rw [hnothing, hnothing]
    exact iff_of_true ⟨.inl rfl, .inl rfl, rfl⟩ (.inl rfl)
  | some name =>
    have hstays (uri : Bytes) : Stays host httpsPort (targetFrom host uri httpsPort) ↔
        Names host httpsPort (targetFrom host uri httpsPort) :=
      or_iff_right (targetFrom_ne_nil hname)
    rw [hstays, hstays, names_iff hname, names_iff hname, authorityOf_targetFrom hname,
      authorityOf_targetFrom hname, some_inj, append_right_inj, append_right_inj]
    constructor
    · rintro ⟨⟨hhost, hport⟩, -, hsame⟩
      exact .inr ⟨hhost, hsame, hport⟩
    · rintro (hnone | ⟨hhost, hsame, hport⟩)
      · cases hnone
      · exact ⟨⟨hhost, hport⟩, ⟨hhost, hsame ▸ hport⟩, hsame⟩

example : Fits (ascii "[fe80::1]:80") (ascii "/search?a=1") (ascii "") 8443 :=
  ⟨by decide, by decide, by decide⟩

/-- A request line with a whole URL in it sends the browser to another host. -/
theorem whole_url_leaves_the_host :
    ¬Stays (ascii "device") 443 (targetFrom (ascii "device") (ascii "http://evil/x") 443) := by
  have hname : nameFrom (ascii "device") = some (ascii "device") := by decide
  have hport : readPort 443 (portText 443 ++ authorityTail (ascii "http://evil/x")) ≠ some 443 := by decide
  rintro (hnone | hnames)
  · exact targetFrom_ne_nil hname hnone
  · exact hport ((names_iff hname).mp hnames).2

end DhcpServer.Web.Redirect
