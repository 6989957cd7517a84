import DhcpServer.Library.Bytes

/-!
# The allow-list the DHCP packet path asks

`DhcpAllowedList` keeps the allowed MAC addresses in an open-addressing table of `kSlots` slots.
This module holds the part the packet path runs: the hash, the probe sequence of `contains` and the
policy `isClientAllowed`, which fails open while the table has no memory.
-/

namespace DhcpServer.Dhcp

open Library

abbrev Mac := Vector UInt8 6

namespace AllowedList

def kSlots : Nat := 64
def kFnvOffsetBasis : UInt32 := 2166136261
def kFnvPrime : UInt32 := 16777619

structure Slot where
  mac : Mac
  used : Bool

/-- The active half of the double buffer; `none` before `init` found memory. -/
structure Table where
  slots : Option (Nat → Slot)

def Table.available (table : Table) : Bool := table.slots.isSome

def hashMac (mac : Mac) : UInt32 :=
  mac.toList.foldl (fun h byte ↦ (h ^^^ byte.toUInt32) * kFnvPrime) kFnvOffsetBasis

def probeSlots (slots : Nat → Slot) (mac : Mac) : (probes idx : Nat) → Bool
  | 0, _ => false
  | probes + 1, idx =>
    if !(slots idx).used then false
    else if (slots idx).mac = mac then true
    else probeSlots slots mac probes ((idx + 1) % kSlots)

def Table.contains (table : Table) (mac : Mac) : Bool :=
  match table.slots with
  | none => false
  | some slots => probeSlots slots mac kSlots ((hashMac mac).toNat % kSlots)

structure StaticRef where
  mac : Mac
  enabled : Bool

def isClientAllowed (mac : Mac) (allowOnly : Bool) (list : Table) (bindings : List StaticRef) : Bool :=
  if !allowOnly then true
  else if !list.available then true
  else if list.contains mac then true
  else bindings.any fun ref ↦ ref.enabled && ref.mac == mac

end AllowedList

end DhcpServer.Dhcp
