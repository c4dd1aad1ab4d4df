import Mathlib.Data.List.Basic

/-! Records in a buffer, each with its length in a header of its own and beginning at a multiple of a unit. A reader
goes from one to the next by the lengths that it finds; it stops where what is left is no record. -/

namespace Harry.Base

/-- A format: the bytes of a header, the unit to which the begin of a record is aligned, and the length that a header
states. -/
structure Aligned (β : Type) where
  header : Nat
  unit : Nat
  lengthOf : List β → Nat
  unit_pos : 0 < unit
  header_pos : 0 < header
  lengthOf_append : ∀ r x, header ≤ r.length → lengthOf (r ++ x) = lengthOf r

namespace Aligned

variable {β : Type} (A : Aligned β)

/-- The next multiple of the unit. -/
def align (n : Nat) : Nat := (n + A.unit - 1) / A.unit * A.unit

/-- What is left begins with a record. -/
def Ok (bytes : List β) : Prop :=
  A.header ≤ bytes.length ∧ A.header ≤ A.lengthOf bytes ∧ A.lengthOf bytes ≤ bytes.length

instance (bytes : List β) : Decidable (A.Ok bytes) := inferInstanceAs (Decidable (_ ∧ _))

/-- The places of the records, each as the bytes from there on. -/
def walk : Nat → List β → List (List β)
  | 0, _ => []
  | n + 1, bytes => if A.Ok bytes then bytes :: walk n (bytes.drop (A.align (A.lengthOf bytes))) else []

/-- What is left behind the last record; there is nothing to read where that record would be padded beyond the end. -/
def rest : Nat → List β → Option (List β)
  | 0, bytes => some bytes
  | n + 1, bytes =>
      if A.Ok bytes then
        if A.align (A.lengthOf bytes) ≤ bytes.length then rest n (bytes.drop (A.align (A.lengthOf bytes))) else none
      else some bytes

/-- A record states its own length. -/
structure IsRecord (r : List β) : Prop where
  header_le : A.header ≤ r.length
  lengthOf_eq : A.lengthOf r = r.length

/-- A string with what it takes to the next multiple of the unit. -/
def pad (fill : β) (r : List β) : List β := r ++ List.replicate (A.align r.length - r.length) fill

/-- Records one after another, each padded. -/
def pads (fill : β) (rs : List (List β)) : List β := (rs.map (A.pad fill)).flatten

variable {A} {fill : β}

theorem le_align (n : Nat) : n ≤ A.align n := by
  have hpos := A.unit_pos
  have hdiv := Nat.div_add_mod (n + A.unit - 1) A.unit
  have hmod := Nat.mod_lt (n + A.unit - 1) hpos
  rw [align, Nat.mul_comm]
  omega

theorem align_of_dvd {n : Nat} (h : A.unit ∣ n) : A.align n = n := by
  obtain ⟨k, rfl⟩ := h
  have hpos := A.unit_pos
  rw [align, Nat.add_sub_assoc hpos, Nat.mul_add_div hpos, Nat.div_eq_of_lt (Nat.sub_lt hpos Nat.one_pos), Nat.add_zero,
    Nat.mul_comm]

theorem dvd_align (n : Nat) : A.unit ∣ A.align n := Nat.dvd_mul_left _ _

@[simp] theorem length_pad (r : List β) : (A.pad fill r).length = A.align r.length := by
  rw [pad, List.length_append, List.length_replicate, Nat.add_sub_cancel' (le_align _)]

theorem pad_of_dvd {r : List β} (h : A.unit ∣ r.length) : A.pad fill r = r := by
  rw [pad, align_of_dvd h, Nat.sub_self, List.replicate_zero, List.append_nil]

theorem pads_cons (r : List β) (rs : List (List β)) : A.pads fill (r :: rs) = A.pad fill r ++ A.pads fill rs := rfl

/-- One more record at the end. -/
theorem pads_snoc (rs : List (List β)) (r : List β) : A.pads fill (rs ++ [r]) = A.pads fill rs ++ A.pad fill r := by
  rw [pads, List.map_append, List.flatten_append, List.map_singleton, List.flatten_singleton]
  rfl

theorem dvd_length_pads (rs : List (List β)) : A.unit ∣ (A.pads fill rs).length := by
  induction rs with
  | nil => exact Nat.dvd_zero _
  | cons r rs ih =>
      rw [pads_cons, List.length_append, length_pad]
      exact Nat.dvd_add (dvd_align _) ih

/-! ### The walk -/

theorem IsRecord.ok {r : List β} (h : A.IsRecord r) (x : List β) : A.Ok (r ++ x) := by
  refine ⟨?_, ?_, ?_⟩ <;>
    simp only [A.lengthOf_append r x h.header_le, h.lengthOf_eq, List.length_append, h.header_le] <;>
    first | exact Nat.le_add_right_of_le h.header_le | exact Nat.le_add_right _ _

variable {rs : List (List β)}

/-- A record, padded, and what stands behind it. -/
theorem IsRecord.behind (fill : β) {r : List β} (h : A.IsRecord r) (x : List β) :
    A.Ok (A.pad fill r ++ x) ∧ A.align (A.lengthOf (A.pad fill r ++ x)) ≤ (A.pad fill r ++ x).length ∧
      (A.pad fill r ++ x).drop (A.align (A.lengthOf (A.pad fill r ++ x))) = x := by
  have hlength : A.lengthOf (A.pad fill r ++ x) = r.length := by
    rw [pad, List.append_assoc, A.lengthOf_append r _ h.header_le, h.lengthOf_eq]
  refine ⟨?_, ?_, ?_⟩
  · rw [pad, List.append_assoc]
    exact h.ok _
  · rw [hlength, List.length_append, length_pad]
    exact Nat.le_add_right _ _
  · rw [hlength]
    exact List.drop_left' (length_pad r)

/-- The walk comes to every record, in order, and then to what stands behind the last. -/
theorem walk_pads (fill : β) (h : ∀ r ∈ rs, A.IsRecord r) (n : Nat) (x : List β) :
    ∃ ys, A.walk (rs.length + n) (A.pads fill rs ++ x) = ys ++ A.walk n x ∧ List.Forall₂ (· <+: ·) rs ys := by
  induction rs with
  | nil => exact ⟨[], by rw [List.length_nil, Nat.zero_add]; rfl, .nil⟩
  | cons r rs ih =>
      obtain ⟨hr, hrs⟩ := List.forall_mem_cons.mp h
      obtain ⟨ys, hys, hall⟩ := ih hrs
      obtain ⟨hok, -, hdrop⟩ := hr.behind fill (A.pads fill rs ++ x)
      refine ⟨(A.pad fill r ++ (A.pads fill rs ++ x)) :: ys, ?_, .cons ?_ hall⟩
      · rw [List.length_cons, Nat.succ_add, pads_cons, List.append_assoc, walk, if_pos hok, hdrop, hys]
        rfl
      · rw [pad, List.append_assoc]
        exact List.prefix_append _ _

/-- What is left behind the records is what stands there. -/
theorem rest_pads (fill : β) (h : ∀ r ∈ rs, A.IsRecord r) (n : Nat) (x : List β) :
    A.rest (rs.length + n) (A.pads fill rs ++ x) = A.rest n x := by
  induction rs with
  | nil => rw [List.length_nil, Nat.zero_add]; rfl
  | cons r rs ih =>
      obtain ⟨hr, hrs⟩ := List.forall_mem_cons.mp h
      obtain ⟨hok, hle, hdrop⟩ := hr.behind fill (A.pads fill rs ++ x)
      rw [List.length_cons, Nat.succ_add, pads_cons, List.append_assoc, rest, if_pos hok, if_pos hle, hdrop, ih hrs]

theorem walk_of_not_ok (n : Nat) {bytes : List β} (h : ¬ A.Ok bytes) : A.walk n bytes = [] := by
  cases n with
  | zero => rfl
  | succ n => exact if_neg h

theorem rest_of_not_ok (n : Nat) {bytes : List β} (h : ¬ A.Ok bytes) : A.rest n bytes = some bytes := by
  cases n with
  | zero => rfl
  | succ n => exact if_neg h

theorem not_ok_nil : ¬ A.Ok [] := fun h => absurd h.1 (Nat.not_le_of_lt A.header_pos)

theorem length_le_pads (fill : β) (h : ∀ r ∈ rs, A.IsRecord r) : rs.length ≤ (A.pads fill rs).length := by
  induction rs with
  | nil => exact Nat.le_refl _
  | cons r rs ih =>
      obtain ⟨hr, hrs⟩ := List.forall_mem_cons.mp h
      have hpos := Nat.lt_of_lt_of_le A.header_pos (Nat.le_trans hr.header_le (le_align (A := A) r.length))
      have hrest := ih hrs
      rw [List.length_cons, pads_cons, List.length_append, length_pad]
      omega

end Aligned

end Harry.Base
