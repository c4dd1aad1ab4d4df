import Mathlib.Data.Finset.Card
import Mathlib.Data.List.Count

/-! Counting voters. A ballot box is a list, one entry for each voter; the voters for something are
the positions whose entry satisfies a predicate, and their number is the count of the predicate.
Two majorities of boxes of one size have a voter in common, also when the boxes were read at
different times. -/

namespace Harry.Base

variable {α : Type}

/-- The positions of a list whose entries satisfy a predicate. -/
def positions (p : α → Bool) (l : List α) : Finset ℕ :=
  (Finset.range l.length).filter fun i => (l[i]?).any p

theorem mem_positions {p : α → Bool} {l : List α} {i : ℕ} :
    i ∈ positions p l ↔ ∃ x, l[i]? = some x ∧ p x = true := by
  rw [positions, Finset.mem_filter, Finset.mem_range]
  constructor
  · rintro ⟨hi, h⟩
    rw [List.getElem?_eq_getElem hi] at h
    exact ⟨l[i], List.getElem?_eq_getElem hi, h⟩
  · rintro ⟨x, hx, hp⟩
    obtain ⟨hi, -⟩ := List.getElem?_eq_some_iff.mp hx
    exact ⟨hi, by rw [hx]; exact hp⟩

theorem positions_subset_range (p : α → Bool) (l : List α) :
    positions p l ⊆ Finset.range l.length :=
  Finset.filter_subset _ _

theorem positions_cons (p : α → Bool) (x : α) (l : List α) :
    positions p (x :: l) =
      (if p x then {0} else ∅) ∪ (positions p l).map ⟨Nat.succ, Nat.succ_injective⟩ := by
  ext i
  rw [mem_positions, Finset.mem_union, Finset.mem_map]
  cases i with
  | zero => cases h : p x <;> simp [h]
  | succ i => cases h : p x <;> simp [mem_positions]

theorem card_positions (p : α → Bool) (l : List α) : (positions p l).card = l.countP p := by
  induction l with
  | nil => simp [positions]
  | cons x l ih =>
      rw [positions_cons, Finset.card_union_of_disjoint, Finset.card_map, ih, List.countP_cons]
      · cases p x <;> simp [Nat.add_comm]
      · cases p x <;> simp [Finset.disjoint_left]

/-- Replacing one entry changes the count by that entry. -/
theorem countP_set_add {p : α → Bool} {l : List α} {i : ℕ} {x : α} (h : l[i]? = some x) (y : α) :
    (l.set i y).countP p + (p x).toNat = l.countP p + (p y).toNat := by
  induction l generalizing i with
  | nil => simp at h
  | cons z l ih =>
      cases i with
      | zero =>
          simp only [List.getElem?_cons_zero, Option.some.injEq] at h
          subst h
          simp only [List.set_cons_zero, List.countP_cons]
          cases p z <;> cases p y <;> simp
      | succ i =>
          have := ih (by simpa using h)
          simp only [List.set_cons_succ, List.countP_cons]
          omega

/-- Two majorities share a voter. -/
theorem exists_mem_of_majorities {n : ℕ} {S T : Finset ℕ} (hS : S ⊆ Finset.range n)
    (hT : T ⊆ Finset.range n) (hnS : n < 2 * S.card) (hnT : n < 2 * T.card) : ∃ i, i ∈ S ∧ i ∈ T := by
  have hinter : (S ∩ T).Nonempty := by
    apply Finset.inter_nonempty_of_card_lt_card_add_card hS hT
    rw [Finset.card_range]
    omega
  obtain ⟨i, hi⟩ := hinter
  exact ⟨i, (Finset.mem_inter.mp hi).1, (Finset.mem_inter.mp hi).2⟩

/-- A minority leaves out some voter of every majority. -/
theorem exists_mem_positions_not_mem {p : α → Bool} {l : List α} {n : ℕ} {F : Finset ℕ}
    (hF : 2 * F.card ≤ n) (hp : n < 2 * l.countP p) : ∃ i, i ∈ positions p l ∧ i ∉ F := by
  by_contra hcon
  push Not at hcon
  have hle : (positions p l).card ≤ F.card := Finset.card_le_card fun i hi => hcon i hi
  rw [card_positions] at hle
  omega

end Harry.Base
