import Mathlib.Data.List.Basic
import Mathlib.Data.List.Range

/-! Memory that is written piece by piece. A piece that no later write touches is what has been written there, and
writes that begin where the one before has ended leave their pieces one behind another (`Contiguous.at_puts`). -/

namespace Harry.Base

variable {α : Type}

/-- Something written from an offset on. -/
structure Store (α : Type) where
  offset : Nat
  bytes : List α
  deriving DecidableEq

abbrev Memory (α : Type) := Nat → α

def Memory.put (b : Memory α) (st : Store α) : Memory α := fun i =>
  if st.offset ≤ i ∧ i < st.offset + st.bytes.length then st.bytes.getD (i - st.offset) (b i) else b i

/-- What is in a stretch of a memory. -/
def Memory.at (b : Memory α) (offset n : Nat) : List α :=
  (List.range n).map fun i => b (offset + i)

variable {b : Memory α} {st : Store α} {l m : List (Store α)} {o n : Nat}

theorem Memory.length_at : (b.at o n).length = n := by
  rw [Memory.at, List.length_map, List.length_range]

theorem Memory.at_add (m : Nat) : b.at o (m + n) = b.at o m ++ b.at (o + m) n := by
  rw [Memory.at, List.range_add, List.map_append, List.map_map]
  refine congrArg (b.at o m ++ ·) (List.map_congr_left fun i _ => ?_)
  rw [Function.comp_apply, Nat.add_assoc]

theorem Memory.at_put (b : Memory α) (st : Store α) : (b.put st).at st.offset st.bytes.length = st.bytes := by
  refine List.ext_getElem Memory.length_at fun i h _ => ?_
  rw [Memory.length_at] at h
  simp [Memory.at, Memory.put, h]

theorem Memory.at_put_of_disjoint (h : o + n ≤ st.offset ∨ st.offset + st.bytes.length ≤ o) :
    (b.put st).at o n = b.at o n := by
  refine List.map_congr_left fun i hi => if_neg ?_
  have hi := List.mem_range.mp hi
  omega

theorem Memory.at_puts_of_disjoint (h : ∀ st ∈ l, o + n ≤ st.offset ∨ st.offset + st.bytes.length ≤ o) :
    (l.foldl Memory.put b).at o n = b.at o n := by
  induction l generalizing b with
  | nil => rfl
  | cons st l ih =>
      rw [List.foldl_cons, ih fun x hx => h x (List.mem_cons_of_mem st hx), Memory.at_put_of_disjoint (h st (by simp))]

/-- Each write begins where the one before has ended. -/
def Contiguous : Nat → List (Store α) → Prop
  | _, [] => True
  | o, st :: l => st.offset = o ∧ Contiguous (o + st.bytes.length) l

/-- What has been written. -/
def written (l : List (Store α)) : List α :=
  l.flatMap Store.bytes

theorem Contiguous.le (h : Contiguous o l) : ∀ st ∈ l, o ≤ st.offset := by
  induction l generalizing o with
  | nil => simp
  | cons st l ih =>
      refine List.forall_mem_cons.mpr ⟨h.1.ge, fun x hx => ?_⟩
      have hle := ih h.2 x hx
      omega

theorem contiguous_append_iff : Contiguous o (l ++ m) ↔ Contiguous o l ∧ Contiguous (o + (written l).length) m := by
  induction l generalizing o with
  | nil => simp [Contiguous, written]
  | cons st l ih =>
      have hlen : o + (written (st :: l)).length = o + st.bytes.length + (written l).length := by
        simp [written, Nat.add_assoc]
      rw [List.cons_append, Contiguous, Contiguous, ih, hlen, and_assoc]

theorem Contiguous.at_puts (h : Contiguous o l) : (l.foldl Memory.put b).at o (written l).length = written l := by
  induction l generalizing b o with
  | nil => rfl
  | cons st l ih =>
      obtain ⟨rfl, hrest⟩ := h
      have hlen : (written (st :: l)).length = st.bytes.length + (written l).length := by simp [written]
      rw [hlen, Memory.at_add, List.foldl_cons, ih hrest,
        Memory.at_puts_of_disjoint fun x hx => Or.inl (hrest.le x hx), Memory.at_put]
      rfl

end Harry.Base
