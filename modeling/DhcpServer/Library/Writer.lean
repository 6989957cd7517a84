import DhcpServer.Library.Bytes

/-!
# Writing into an array

A writer with the array it writes into and the place it has come to. It keeps how far bytes were written, for
the array has a size the writer does not see.
-/

namespace DhcpServer.Library

open List

structure Writer where
  buffer : Buffer
  pos : Nat
  /-- One behind the last byte written. -/
  top : Nat

namespace Writer

def on (buffer : Buffer) : Writer := ⟨buffer, 0, 0⟩

def put (writer : Writer) (bytes : Bytes) : Writer where
  buffer i := if i < writer.pos then writer.buffer i else bytes.getD (i - writer.pos) (writer.buffer i)
  pos := writer.pos + bytes.length
  top := max writer.top (writer.pos + bytes.length)

def skip (writer : Writer) (count : Nat) : Writer := { writer with pos := writer.pos + count }

def bytes (writer : Writer) : Bytes := slice writer.buffer 0 writer.pos

variable (writer : Writer) (first second : Bytes) (count : Nat)

@[simp] theorem pos_on (buffer : Buffer) : (on buffer).pos = 0 := rfl
@[simp] theorem top_on (buffer : Buffer) : (on buffer).top = 0 := rfl
@[simp] theorem pos_put : (writer.put first).pos = writer.pos + first.length := rfl
@[simp] theorem top_put : (writer.put first).top = max writer.top (writer.pos + first.length) := rfl
@[simp] theorem pos_skip : (writer.skip count).pos = writer.pos + count := rfl
@[simp] theorem top_skip : (writer.skip count).top = writer.top := rfl

theorem length_bytes : writer.bytes.length = writer.pos := length_slice

@[simp] theorem bytes_on (buffer : Buffer) : (on buffer).bytes = [] := rfl

theorem bytes_put : (writer.put first).bytes = writer.bytes ++ first := by
  apply ext_getElem
  · simp [length_bytes]
  · intro i hi _
    rw [length_bytes, pos_put] at hi
    rw [getElem_append]
    split
    · rename_i hbefore
      rw [length_bytes] at hbefore
      simp [bytes, slice, put, hbefore]
    · rename_i hbehind
      rw [length_bytes] at hbehind
      have hinside : i - writer.pos < first.length := by omega
      simp [bytes, slice, put, hbehind, hinside]

theorem bytes_skip : (writer.skip count).bytes = writer.bytes ++ slice writer.buffer writer.pos count := by
  simp [bytes, slice, skip, range_add]

theorem put_put : (writer.put first).put second = writer.put (first ++ second) := by
  have hbuffer : ((writer.put first).put second).buffer = (writer.put (first ++ second)).buffer := by
    funext i
    simp only [put, getD_eq_getElem?_getD]
    rcases lt_or_ge i writer.pos with hbefore | hfrom
    · rw [if_pos (by omega), if_pos hbefore, if_pos hbefore]
    · rcases lt_or_ge i (writer.pos + first.length) with hfirst | hsecond
      · rw [if_pos hfirst, if_neg (by omega), if_neg (by omega), getElem?_append_left (by omega)]
      · rw [if_neg (by omega), if_neg (by omega), if_neg (by omega), getElem?_append_right (by omega),
          getElem?_eq_none (l := first) (by omega), Nat.sub_sub]
        rfl
  have hlength : writer.pos + first.length + second.length = writer.pos + (first ++ second).length := by
    rw [length_append, Nat.add_assoc]
  have htop : ((writer.put first).put second).top = (writer.put (first ++ second)).top := by
    simp only [top_put, pos_put]
    omega
  calc (writer.put first).put second
      = ⟨((writer.put first).put second).buffer, ((writer.put first).put second).pos,
          ((writer.put first).put second).top⟩ := rfl
    _ = writer.put (first ++ second) := by
      rw [hbuffer, htop, pos_put, pos_put, hlength]
      rfl

end Writer

end DhcpServer.Library
