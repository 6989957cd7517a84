import Mathlib.Tactic.Common

/-!
# Streams taken in blocks

A state takes whole blocks of a stream one after the other, and what is left of the stream waits for more.
However a stream is cut, the state and what is left are the same.
-/

namespace DhcpServer.Library

open List

variable {α σ : Type*} {size count more : Nat} {step : σ → List α → σ} {state : σ} {stream rest : List α}

def takeBlocks (size : Nat) (step : σ → List α → σ) : Nat → σ → List α → σ × List α
  | 0, state, stream => (state, stream)
  | count + 1, state, stream => takeBlocks size step count (step state (stream.take size)) (stream.drop size)

def absorb (size : Nat) (step : σ → List α → σ) (state : σ) (stream : List α) : σ × List α :=
  takeBlocks size step (stream.length / size) state stream

theorem takeBlocks_snd (count : Nat) (state : σ) (stream : List α) :
    (takeBlocks size step count state stream).2 = stream.drop (count * size) := by
  induction count generalizing state stream with
  | zero => rw [takeBlocks, Nat.zero_mul, drop_zero]
  | succ count ih => rw [takeBlocks, ih, drop_drop, Nat.succ_mul, Nat.add_comm]

theorem takeBlocks_add (count more : Nat) (state : σ) (stream : List α) :
    takeBlocks size step (count + more) state stream =
      takeBlocks size step more (takeBlocks size step count state stream).1
        (takeBlocks size step count state stream).2 := by
  induction count generalizing state stream with
  | zero => rw [Nat.zero_add, takeBlocks]
  | succ count ih => rw [Nat.succ_add, takeBlocks, ih, takeBlocks]

theorem takeBlocks_append (count : Nat) (state : σ) (rest : List α) (hlong : count * size ≤ stream.length) :
    takeBlocks size step count state (stream ++ rest) =
      ((takeBlocks size step count state stream).1, (takeBlocks size step count state stream).2 ++ rest) := by
  induction count generalizing state stream with
  | zero => rfl
  | succ count ih =>
    rw [Nat.succ_mul] at hlong
    have hsize : size ≤ stream.length := Nat.le_trans (Nat.le_add_left _ _) hlong
    have hbehind : count * size ≤ (stream.drop size).length := by
      rw [length_drop]
      omega
    rw [takeBlocks, takeBlocks, take_append_of_le_length hsize, drop_append_of_le_length hsize,
      ih _ hbehind]

theorem takeBlocks_fst (count : Nat) (state : σ) (stream : List α) :
    (takeBlocks size step count state stream).1 =
      (List.range count).foldl
        (fun state block ↦ step state ((stream.drop (block * size)).take size)) state := by
  induction count generalizing state with
  | zero => rfl
  | succ count ih =>
    rw [takeBlocks_add, range_succ, foldl_append, ← ih, takeBlocks_snd]
    rfl

theorem absorb_of_lt (hshort : stream.length < size) : absorb size step state stream = (state, stream) := by
  rw [absorb, Nat.div_eq_of_lt hshort, takeBlocks]

theorem absorb_append_of_length (hsize : 0 < size) (hblock : stream.length = size) :
    absorb size step state (stream ++ rest) = absorb size step (step state stream) rest := by
  have hcount : (stream ++ rest).length / size = rest.length / size + 1 := by
    rw [length_append, hblock, Nat.add_comm, Nat.add_div_right _ hsize]
  rw [absorb, hcount, takeBlocks, ← hblock, take_left, drop_left, absorb, hblock]

theorem absorb_append (state : σ) (stream rest : List α) : absorb size step state (stream ++ rest) =
      absorb size step (absorb size step state stream).1 ((absorb size step state stream).2 ++ rest) := by
  have hwhole : stream.length / size * size ≤ stream.length := Nat.div_mul_le_self _ _
  have hleft : ((absorb size step state stream).2 ++ rest).length =
      (stream ++ rest).length - stream.length / size * size := by
    rw [absorb, takeBlocks_snd, length_append, length_append, length_drop]
    omega
  have hcount : (stream ++ rest).length / size =
      stream.length / size + ((absorb size step state stream).2 ++ rest).length / size := by
    have hfewer : stream.length / size ≤ (stream ++ rest).length / size := by
      rw [length_append]
      exact Nat.div_le_div_right (Nat.le_add_right _ _)
    rw [hleft, Nat.mul_comm, Nat.sub_mul_div, Nat.add_sub_cancel' hfewer]
  rw [absorb, hcount, takeBlocks_add, takeBlocks_append _ _ _ hwhole]
  rfl

end DhcpServer.Library
