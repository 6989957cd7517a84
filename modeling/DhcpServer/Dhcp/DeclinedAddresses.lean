import Mathlib.Tactic.Common

/-!
# Addresses held down after a DHCPDECLINE

`DeclinedAddresses` is a fixed table of `kCapacity` refusals with their time in milliseconds.
Times are 64-bit in the source; they are natural numbers here and the age is the 64-bit
difference `ageMs`.
-/

namespace DhcpServer.Dhcp

structure DeclinedEntry where
  ip : UInt32 := 0
  sinceMs : Nat := 0
  used : Bool := false

structure DeclinedAddresses where
  entries : List DeclinedEntry

namespace DeclinedAddresses

def kDeclineHoldMs : Nat := 60 * 60 * 1000
def kCapacity : Nat := 32

def ageMs (nowMs sinceMs : Nat) : Nat := (nowMs + 0x10000000000000000 - sinceMs) % 0x10000000000000000

def empty : DeclinedAddresses := ⟨List.replicate kCapacity {}⟩

def expire (table : DeclinedAddresses) (nowMs : Nat) : DeclinedAddresses :=
  ⟨table.entries.map fun entry ↦
    if entry.used ∧ kDeclineHoldMs ≤ ageMs nowMs entry.sinceMs then { entry with used := false }
    else entry⟩

/-- Index of the entry with the smallest time, the first of several. -/
def oldest (entries : List DeclinedEntry) : Nat :=
  (List.range entries.length).foldl
    (fun best i ↦
      if (entries.getD i {}).sinceMs < (entries.getD best {}).sinceMs then i else best) 0

/-- `add`; the flag is false when a refusal still in force was forgotten for it. -/
def add (table : DeclinedAddresses) (ip : UInt32) (nowMs : Nat) : DeclinedAddresses × Bool :=
  let entries := (table.expire nowMs).entries
  match entries.findIdx? (fun entry ↦ entry.used && entry.ip == ip) with
  | some i => (⟨entries.modify i fun entry ↦ { entry with sinceMs := nowMs }⟩, true)
  | none =>
    match entries.findIdx? (fun entry ↦ !entry.used) with
    | some i => (⟨entries.set i ⟨ip, nowMs, true⟩⟩, true)
    | none => (⟨entries.set (oldest entries) ⟨ip, nowMs, true⟩⟩, false)

def isDeclined (table : DeclinedAddresses) (ip : UInt32) (nowMs : Nat) : Bool :=
  match table.entries.find? (fun entry ↦ entry.used && entry.ip == ip) with
  | some entry => ageMs nowMs entry.sinceMs < kDeclineHoldMs
  | none => false

def count (table : DeclinedAddresses) (nowMs : Nat) : Nat :=
  table.entries.countP fun entry ↦ entry.used && ageMs nowMs entry.sinceMs < kDeclineHoldMs

def clear (table : DeclinedAddresses) : DeclinedAddresses :=
  ⟨table.entries.map fun entry ↦ { entry with used := false }⟩

end DeclinedAddresses

end DhcpServer.Dhcp
