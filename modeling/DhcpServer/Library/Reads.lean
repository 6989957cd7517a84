import DhcpServer.Library.Bytes

/-!
# Reading by positions

A read of a byte the data do not have gives nothing, so a parser that only reads what was received never
comes to nothing.
-/

namespace DhcpServer.Library.Reads

open List

def wordAt (data : Bytes) (pos : Nat) : Option UInt16 := do
  let high ← data[pos]?
  let low ← data[pos + 1]?
  return high.toUInt16 <<< 8 ||| low.toUInt16

def longAt (data : Bytes) (pos : Nat) : Option UInt32 := do
  let first ← data[pos]?
  let second ← data[pos + 1]?
  let third ← data[pos + 2]?
  let fourth ← data[pos + 3]?
  return first.toUInt32 <<< 24 ||| second.toUInt32 <<< 16 ||| third.toUInt32 <<< 8 ||| fourth.toUInt32

def bytesAt (data : Bytes) (pos count : Nat) : Option Bytes :=
  if pos + count ≤ data.length then some ((data.drop pos).take count) else none

variable {data : Bytes} {pos count : Nat}

theorem byteAt_eq (hinside : pos < data.length) : data[pos]? = some (data.getD pos 0) := by
  rw [getD_eq_getElem?_getD, getElem?_eq_getElem hinside, Option.getD_some]

theorem wordAt_eq (hinside : pos + 2 ≤ data.length) :
    wordAt data pos = some ((data.getD pos 0).toUInt16 <<< 8 ||| (data.getD (pos + 1) 0).toUInt16) := by
  rw [wordAt, byteAt_eq (by omega), byteAt_eq (by omega)]
  rfl

theorem longAt_eq (hinside : pos + 4 ≤ data.length) : longAt data pos =
      some ((data.getD pos 0).toUInt32 <<< 24 ||| (data.getD (pos + 1) 0).toUInt32 <<< 16 |||
        (data.getD (pos + 2) 0).toUInt32 <<< 8 ||| (data.getD (pos + 3) 0).toUInt32) := by
  rw [longAt, byteAt_eq (by omega), byteAt_eq (by omega), byteAt_eq (by omega), byteAt_eq (by omega)]
  rfl

theorem bytesAt_eq (hinside : pos + count ≤ data.length) :
    bytesAt data pos count = some ((data.drop pos).take count) :=
  if_pos hinside

section Rests

variable {byte : UInt8} {text rest : Bytes}

theorem byteAt_of_drop (hdrop : data.drop pos = byte :: rest) : data[pos]? = some byte := by
  rw [← head?_drop, hdrop, head?_cons]

theorem lt_of_drop (hdrop : data.drop pos = byte :: rest) : pos < data.length := by
  have hlength := congrArg List.length hdrop
  rw [length_drop, length_cons] at hlength
  omega

theorem drop_of_drop (hdrop : data.drop pos = text ++ rest) : data.drop (pos + text.length) = rest := by
  rw [← drop_drop, hdrop, drop_left]

theorem drop_succ_of_drop (hdrop : data.drop pos = byte :: rest) : data.drop (pos + 1) = rest := by
  have happend : data.drop pos = [byte] ++ rest := hdrop
  exact drop_of_drop happend

end Rests

section Loops

variable {σ τ : Type*} {loop : (fuel pos : Nat) → σ → Option τ} {next last : Nat} {state middle final : σ}

/-- A loop gets from one position to another in no more rounds than there are bytes between them. -/
def Leads (loop : (fuel pos : Nat) → σ → Option τ) (pos : Nat) (state : σ) (last : Nat) (final : σ) : Prop :=
  ∃ used, pos + used ≤ last ∧ ∀ fuel, loop (fuel + used) pos state = loop fuel last final

theorem Leads.refl (loop : (fuel pos : Nat) → σ → Option τ) (pos : Nat) (state : σ) :
    Leads loop pos state pos state :=
  ⟨0, le_refl _, fun _ ↦ rfl⟩

theorem Leads.trans (hfirst : Leads loop pos state next middle) (hrest : Leads loop next middle last final) :
    Leads loop pos state last final := by
  obtain ⟨used, hused, hrounds⟩ := hfirst
  obtain ⟨more, hmore, hmoreRounds⟩ := hrest
  refine ⟨more + used, by omega, fun fuel ↦ ?_⟩
  rw [← Nat.add_assoc, hrounds, hmoreRounds]

theorem Leads.round (hlater : pos < next)
    (hround : ∀ fuel, loop (fuel + 1) pos state = loop fuel next middle) : Leads loop pos state next middle :=
  ⟨1, hlater, hround⟩

theorem Leads.eq_some {found : τ} {fuel : Nat} (hleads : Leads loop pos state last final) (hfuel : last < fuel)
    (hend : ∀ fuel, loop (fuel + 1) last final = some found) : loop fuel pos state = some found := by
  obtain ⟨used, hused, hrounds⟩ := hleads
  have hsplit : fuel = fuel - used - 1 + 1 + used := by omega
  rw [hsplit, hrounds, hend]

end Loops

end DhcpServer.Library.Reads
