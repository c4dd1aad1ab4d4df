import Mathlib.Data.List.GetD
import Harry.BaseExec
import Harry.BaseFraming
import Harry.RfpMessage

/-! What the receivers of RouteFlow messages are made of: the framing of the byte stream by the length field of
the header, the buffer of `rfpbuf.c` in which a message is put together, and the stream itself, of which a read
returns as much as it likes. -/

namespace Harry.Rfp

open Harry.Base

/-- `ntohs(rh->length)` of the header at the beginning of the bytes. -/
def headerLength (s : List UInt8) : Nat := (s.getD 2 0).toNat * 2 ^ 8 + (s.getD 3 0).toNat

theorem headerLength_append {h : List UInt8} (x : List UInt8) (hh : 8 ≤ h.length) :
    headerLength (h ++ x) = headerLength h := by
  have h2 : (h ++ x).getD 2 0 = h.getD 2 0 := List.getD_append _ _ _ _ (by omega)
  have h3 : (h ++ x).getD 3 0 = h.getD 3 0 := List.getD_append _ _ _ _ (by omega)
  simp only [headerLength, h2, h3]

/-- Messages with a header of `sizeof(struct rfp_header)` bytes. -/
def framing : Framing UInt8 where
  headerSize := 8
  headerSize_pos := by decide
  length := headerLength
  length_append := fun x hh => headerLength_append x hh

/-! ### Buffers -/

/-- A `struct rfpbuf` without headroom: the bytes in use lie at the beginning of the allocated memory. -/
structure Buffer where
  allocated : Nat
  data : List UInt8
  size_le : data.length ≤ allocated

/-- `rfpbuf_new`. -/
def rfpbufNew (size : Nat) : Buffer := ⟨size, [], Nat.zero_le size⟩

namespace Buffer

variable (b : Buffer)

/-- `b->size`. -/
def size : Nat := b.data.length

/-- `rfpbuf_tailroom`. -/
def tailroom : Nat := b.allocated - b.size

/-- `rfpbuf_prealloc_tailroom`. -/
def preallocTailroom (size : Nat) : Buffer :=
  if size > b.tailroom then ⟨b.size + max size 64, b.data, Nat.le_add_right _ _⟩ else b

/-- Bytes written at `rfpbuf_tail` and counted in the size. A write beyond `rfpbuf_end` is undefined. -/
def write (bytes : List UInt8) : Option Buffer :=
  if h : b.size + bytes.length ≤ b.allocated then
    some ⟨b.allocated, b.data ++ bytes, by rw [List.length_append]; exact h⟩
  else none

@[simp] theorem data_preallocTailroom (n : Nat) : (b.preallocTailroom n).data = b.data := by
  unfold preallocTailroom
  split <;> rfl

@[simp] theorem size_preallocTailroom (n : Nat) : (b.preallocTailroom n).size = b.size := by
  rw [size, data_preallocTailroom, size]

theorem tailroom_preallocTailroom (n : Nat) : n ≤ (b.preallocTailroom n).tailroom := by
  unfold preallocTailroom
  by_cases h : n > b.tailroom
  · rw [if_pos h]
    simp only [tailroom, size]
    omega
  · rw [if_neg h]
    exact Nat.le_of_not_lt h

variable {b}

/-- What has room is written. -/
theorem write_eq_some (bytes : List UInt8) (h : bytes.length ≤ b.tailroom) :
    ∃ b', b.write bytes = some b' ∧ b'.data = b.data ++ bytes := by
  have hsize : b.size ≤ b.allocated := b.size_le
  have hfits : b.size + bytes.length ≤ b.allocated := by
    unfold tailroom at h
    omega
  exact ⟨_, dif_pos hfits, rfl⟩

theorem data_of_write {b' : Buffer} {bytes : List UInt8} (h : b.write bytes = some b') :
    b'.data = b.data ++ bytes := by
  unfold write at h
  split at h
  · cases h
    rfl
  · cases h

end Buffer

/-- The receiving end of a byte stream: the bytes that are still to be read, and what decides about each read, by
the number of reads made before it. -/
structure Stream (ρ : Type) where
  bytes : List UInt8
  replies : Nat → ρ
  reads : Nat

namespace Stream

variable {ρ : Type} (w : Stream ρ)

/-- What decides about the next read. -/
def reply : ρ := w.replies w.reads

/-- The stream after a read that got the first `n` bytes. -/
def advance (n : Nat) : Stream ρ := { w with bytes := w.bytes.drop n, reads := w.reads + 1 }

@[simp] theorem bytes_advance (n : Nat) : (w.advance n).bytes = w.bytes.drop n := rfl
@[simp] theorem replies_advance (n : Nat) : (w.advance n).replies = w.replies := rfl
@[simp] theorem reads_advance (n : Nat) : (w.advance n).reads = w.reads + 1 := rfl

end Stream

end Harry.Rfp
