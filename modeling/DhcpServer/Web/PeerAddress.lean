import DhcpServer.Core.IpText

/-!
# The peer of a connection

`peerAddressFromBytes` reads the bytes of a socket address in the two forms the device needs: the number
that the filters judge and the text that the lockout of the login counts by. The text determines the
address, and the number is the one that the text says.
-/

namespace DhcpServer.Web.Peers

open Library AddressText Core.IpText List

structure PeerAddress where
  ipv4 : Bool := false
  ipv4HostOrder : UInt32 := 0
  text : Bytes := ascii "unknown"

def isV4Mapped (bytes : Buffer) : Bool :=
  (List.range 10).all (bytes · == 0) && bytes 10 == 0xFF && bytes 11 == 0xFF

/-- What lies at `bytes + 12`. -/
def from12 (bytes : Buffer) : Buffer := fun i ↦ bytes (12 + i)

def peerFromIp4 (bytes : Buffer) : PeerAddress :=
  let addr := ip4HostOrder bytes
  if addr = 0 then {} else { ipv4 := true, ipv4HostOrder := addr, text := ip4Text bytes }

def peerAddressFromBytes (bytes : Option Buffer) (length : Nat) : PeerAddress :=
  match bytes with
  | none => {}
  | some bytes =>
    if length = 4 then peerFromIp4 bytes
    else if length = 16 then
      if isV4Mapped bytes then peerFromIp4 (from12 bytes) else { text := ip6Text bytes }
    else {}

inductive Address
  | v4 (octets : List UInt8)
  | v6 (octets : List UInt8)
deriving DecidableEq

/-- A mapped address is the IPv4 address it stands for. -/
def addressOf (bytes : Buffer) (length : Nat) : Address :=
  if length = 4 then .v4 (slice bytes 0 4)
  else if isV4Mapped bytes then .v4 (slice bytes 12 4)
  else .v6 (slice bytes 0 16)

structure Peer where
  bytes : Buffer
  length : Nat
  length_eq : length = 4 ∨ length = 16
  nonzero : addressOf bytes length ≠ .v4 [0, 0, 0, 0]

namespace Peer

def address (peer : Peer) : Address := addressOf peer.bytes peer.length

def read (peer : Peer) : PeerAddress := peerAddressFromBytes (some peer.bytes) peer.length

end Peer

variable {bytes : Buffer} {octets : List UInt8}

theorem slice_eq_zero (hzero : ip4HostOrder bytes = 0) : slice bytes 0 4 = [0, 0, 0, 0] := by
  rw [← hostOctets_ip4HostOrder, hzero]
  rfl

/-- The address of a peer as its number and its text say it. -/
inductive Reads : Address → PeerAddress → Prop
  | ip4 {bytes : Buffer} :
      Reads (.v4 (slice bytes 0 4))
        { ipv4 := true, ipv4HostOrder := ip4HostOrder bytes, text := ip4Text bytes }
  | ip6 {bytes : Buffer} : Reads (.v6 (slice bytes 0 16)) { text := ip6Text bytes }

theorem reads_peerFromIp4 (hnonzero : Address.v4 (slice bytes 0 4) ≠ .v4 [0, 0, 0, 0]) :
    Reads (.v4 (slice bytes 0 4)) (peerFromIp4 bytes) := by
  unfold peerFromIp4
  dsimp only
  split_ifs with hzero
  · exact absurd (congrArg Address.v4 (slice_eq_zero hzero)) hnonzero
  · exact .ip4

theorem Peer.reads (peer : Peer) : Reads peer.address peer.read := by
  obtain ⟨bytes, length, hlength, hnonzero⟩ := peer
  unfold Peer.address Peer.read peerAddressFromBytes
  unfold addressOf at hnonzero ⊢
  dsimp only
  split_ifs at hnonzero ⊢ with hfour hmapped hsixteen hsixteen
  · exact reads_peerFromIp4 hnonzero
  · have hmappedReads : Reads (.v4 (slice (from12 bytes) 0 4)) (peerFromIp4 (from12 bytes)) :=
      reads_peerFromIp4 hnonzero
    exact hmappedReads
  · exact absurd (hlength.resolve_left hfour) hsixteen
  · exact .ip6
  · exact absurd (hlength.resolve_left hfour) hsixteen

theorem readIp4_ip6Text (bytes : Buffer) : readIp4 (ip6Text bytes) = none := by
  have hdot : dot ∉ ip6Text bytes := by
    intro hmem
    have hbyte := (recommended_ip6Text bytes).lower dot hmem
    revert hbyte
    decide
  rw [readIp4, splitOn_eq_singleton hdot, mapM_cons, mapM_nil]
  cases readOctet (ip6Text bytes) <;> rfl

variable {address : Address} {peer : PeerAddress}

theorem Reads.readIp4_text (hreads : Reads address peer) :
    readIp4 peer.text = if peer.ipv4 then some (hostOctets peer.ipv4HostOrder) else none := by
  cases hreads with
  | ip4 => exact (readIp4_ip4Text _).trans (congrArg some (hostOctets_ip4HostOrder _).symm)
  | ip6 => exact readIp4_ip6Text _

def readAddress (text : Bytes) : Option Address :=
  match readIp4 text with
  | some octets => some (.v4 octets)
  | none => (readIp6 text).map fun groups ↦ .v6 (groups.flatMap groupBytes)

theorem Reads.readAddress_text (hreads : Reads address peer) : readAddress peer.text = some address := by
  unfold readAddress
  cases hreads with
  | ip4 => rw [readIp4_ip4Text]
  | @ip6 bytes =>
    rw [readIp4_ip6Text]
    rw [readIp6_ip6Text, Option.map_some, flatMap_groupBytes]

theorem ip6Text_congr {left right : Buffer} (hsame : slice left 0 16 = slice right 0 16) :
    ip6Text left = ip6Text right := by
  have hbytes : ∀ i < 16, left i = right i := by
    intro i hi
    have hplace := map_inj_left.mp hsame i (mem_range.mpr hi)
    rwa [Nat.zero_add] at hplace
  have hgroups : groupsOf left = groupsOf right := by
    refine map_congr_left fun i hi ↦ ?_
    have hlt := mem_range.mp hi
    rw [hbytes (2 * i) (by omega), hbytes (2 * i + 1) (by omega)]
  rw [ip6Text, ip6Text, hgroups]

theorem Reads.text_eq_iff {address' : Address} {peer' : PeerAddress} (hreads : Reads address peer)
    (hreads' : Reads address' peer') : peer.text = peer'.text ↔ address = address' := by
  constructor
  · intro htext
    have hread := hreads.readAddress_text
    rw [htext, hreads'.readAddress_text] at hread
    exact (Option.some.inj hread).symm
  · intro haddress
    cases hreads with
    | ip4 =>
      cases hreads' with
      | ip4 =>
        rw [ip4Text_eq, ip4Text_eq, Address.v4.inj haddress]
      | ip6 => cases haddress
    | ip6 =>
      cases hreads' with
      | ip4 => cases haddress
      | ip6 => exact ip6Text_congr (Address.v6.inj haddress)

/-- One key for one client: two peers have the same text exactly when they have the same address; the
number of the filters is the address that the text says, where the text says an IPv4 address; and the
text of every IPv6 address is read back as its bytes and is in the recommended form. -/
theorem one_key_for_one_client (first second : Peer) (bytes : Buffer) :
    (first.read.text = second.read.text ↔ first.address = second.address) ∧ readIp4 first.read.text =
        (if first.read.ipv4 then some (hostOctets first.read.ipv4HostOrder) else none) ∧
      (readIp6 (ip6Text bytes)).map (·.flatMap groupBytes) = some (slice bytes 0 16) ∧
      Recommended (groupsOf bytes) (ip6Text bytes) := by
  refine ⟨first.reads.text_eq_iff second.reads, first.reads.readIp4_text, ?_, recommended_ip6Text bytes⟩
  rw [readIp6_ip6Text, Option.map_some, flatMap_groupBytes]

/-- The peer `::ffff:192.168.1.10`. -/
def mappedPeer : Peer where
  bytes i := [0, 0, 0, 0, 0, 0, 0, 0, 0, 0, 0xFF, 0xFF, 192, 168, 1, 10].getD i 0
  length := 16
  length_eq := .inr rfl
  nonzero := by decide

example : mappedPeer.read.text = ascii "192.168.1.10" := by decide

end DhcpServer.Web.Peers
