import Mathlib.Data.Multiset.Range
import Mathlib.Logic.Equiv.Basic

/-! `lib/pqueue.c`: a priority queue in an array. The array grows when it has to; what it holds from `size` on is of no
account. The queue is a heap: no element comes before its parent. `trickle_up` and `trickle_down` work with a hole at
`index` that the element `tmp` falls into at the end. -/

namespace Harry.Queue

variable {α : Type}

/-- `struct pqueue`. -/
structure Pqueue (α : Type) where
  size : Nat
  array : Nat → α

/-- The loop of `trickle_up`. -/
def trickleUp (cmp : α → α → Int) (tmp : α) (array : Nat → α) (index : Nat) : Nat → α :=
  if 0 < index ∧ cmp tmp (array ((index - 1) / 2)) < 0 then
    trickleUp cmp tmp (Function.update array index (array ((index - 1) / 2))) ((index - 1) / 2)
  else Function.update array index tmp
termination_by index
decreasing_by omega

/-- The child that `trickle_down` moves up. -/
def which (cmp : α → α → Int) (size : Nat) (array : Nat → α) (index : Nat) : Nat :=
  if 2 * index + 2 < size ∧ 0 < cmp (array (2 * index + 1)) (array (2 * index + 2)) then 2 * index + 2
  else 2 * index + 1

theorem lt_which (cmp : α → α → Int) (size : Nat) (array : Nat → α) (index : Nat) :
    index < which cmp size array index := by
  rw [which]
  split <;> omega

/-- The loop of `trickle_down`. -/
def trickleDown (cmp : α → α → Int) (size : Nat) (tmp : α) (array : Nat → α) (index : Nat) : Nat → α :=
  if index < size / 2 then
    if 0 < cmp (array (which cmp size array index)) tmp then Function.update array index tmp
    else trickleDown cmp size tmp (Function.update array index (array (which cmp size array index)))
      (which cmp size array index)
  else Function.update array index tmp
termination_by size - index
decreasing_by
  have := lt_which cmp size array index
  omega

/-- `pqueue_create`. -/
def pqueueCreate [Inhabited α] : Pqueue α :=
  ⟨0, fun _ => default⟩

/-- `pqueue_enqueue`. -/
def pqueueEnqueue (cmp : α → α → Int) (data : α) (queue : Pqueue α) : Pqueue α :=
  ⟨queue.size + 1, trickleUp cmp data (Function.update queue.array queue.size data) queue.size⟩

/-- `pqueue_dequeue`. -/
def pqueueDequeue (cmp : α → α → Int) (queue : Pqueue α) : α × Pqueue α :=
  let size := queue.size - 1
  let array := Function.update queue.array 0 (queue.array size)
  (queue.array 0, ⟨size, trickleDown cmp size (array 0) array 0⟩)

/-- The elements of a queue. -/
def Pqueue.contents (queue : Pqueue α) : Multiset α :=
  (Multiset.range queue.size).map queue.array

theorem mem_contents {queue : Pqueue α} {x : α} : x ∈ queue.contents ↔ ∃ i < queue.size, queue.array i = x := by
  simp [Pqueue.contents]

/-- A hole moves from one position to another, and what was there takes its place. -/
theorem map_hole {a : Nat → α} {n i p : Nat} (hi : i < n) (hp : p < n) (hne : i ≠ p) (x : α) :
    (Multiset.range n).map (Function.update (Function.update a i (a p)) p x) =
      (Multiset.range n).map (Function.update a i x) := by
  have hswap : (Multiset.range n).map (Equiv.swap i p) = Multiset.range n := by
    refine (Multiset.Nodup.ext ((Multiset.nodup_range n).map (Equiv.injective _)) (Multiset.nodup_range n)).mpr
      fun j => ?_
    rw [Multiset.mem_map, Multiset.mem_range]
    constructor
    · rintro ⟨k, hk, rfl⟩
      rw [Multiset.mem_range] at hk
      rw [Equiv.swap_apply_def]
      split_ifs <;> assumption
    · intro hj
      refine ⟨Equiv.swap i p j, ?_, Equiv.swap_apply_self i p j⟩
      rw [Multiset.mem_range, Equiv.swap_apply_def]
      split_ifs <;> assumption
  have hcomp : Function.update (Function.update a i (a p)) p x = Function.update a i x ∘ Equiv.swap i p := by
    funext j
    by_cases hjp : j = p
    · subst hjp
      simp
    · by_cases hji : j = i
      · subst hji
        simp [Function.update_of_ne hne, Function.update_of_ne (Ne.symm hne)]
      · simp [Equiv.swap_apply_of_ne_of_ne hji hjp, Function.update_of_ne hji, Function.update_of_ne hjp]
  rw [hcomp, ← Multiset.map_map, hswap]

theorem map_trickleUp (cmp : α → α → Int) (tmp : α) (a : Nat → α) {n i : Nat} (hi : i < n) :
    (Multiset.range n).map (trickleUp cmp tmp a i) = (Multiset.range n).map (Function.update a i tmp) := by
  fun_induction trickleUp cmp tmp a i with
  | case1 a i h ih => rw [ih (by omega), map_hole hi (by omega) (by omega)]
  | case2 a i h => rfl

theorem which_lt {cmp : α → α → Int} {n i : Nat} {a : Nat → α} (h : i < n / 2) : which cmp n a i < n := by
  rw [which]
  split <;> omega

theorem map_trickleDown (cmp : α → α → Int) (tmp : α) (a : Nat → α) {n i : Nat} (hi : i < n) :
    (Multiset.range n).map (trickleDown cmp n tmp a i) = (Multiset.range n).map (Function.update a i tmp) := by
  fun_induction trickleDown cmp n tmp a i with
  | case1 a i h hstop => rfl
  | case2 a i h hstop ih =>
      have hlt := lt_which cmp n a i
      rw [ih (which_lt h), map_hole hi (which_lt h) (by omega)]
  | case3 a i h => rfl

section Order

variable {κ : Type} [LinearOrder κ] {key : α → κ} {cmp : α → α → Int} {S : Set α} {a : Nat → α} {n i : Nat} {tmp : α}

/-- No element comes before its parent. -/
def Heap (key : α → κ) (n : Nat) (a : Nat → α) : Prop :=
  ∀ j, 0 < j → j < n → key (a ((j - 1) / 2)) ≤ key (a j)

/-- The comparison of two elements goes by their keys. -/
def GoesBy (cmp : α → α → Int) (key : α → κ) (x y : α) : Prop :=
  (cmp x y < 0 ↔ key x < key y) ∧ (0 < cmp x y ↔ key y < key x)

/-- The element at `i` may come before its parent; nothing below it does. -/
structure UpReady (key : α → κ) (n : Nat) (a : Nat → α) (i : Nat) : Prop where
  others : ∀ j, 0 < j → j < n → j ≠ i → key (a ((j - 1) / 2)) ≤ key (a j)
  below : 0 < i → ∀ j, 0 < j → j < n → (j - 1) / 2 = i → key (a ((i - 1) / 2)) ≤ key (a j)

/-- The children of the element at `i` may come before it; they do not come before its parent. -/
structure DownReady (key : α → κ) (n : Nat) (a : Nat → α) (i : Nat) : Prop where
  others : ∀ j, 0 < j → j < n → (j - 1) / 2 ≠ i → key (a ((j - 1) / 2)) ≤ key (a j)
  below : 0 < i → ∀ j, 0 < j → j < n → (j - 1) / 2 = i → key (a ((i - 1) / 2)) ≤ key (a j)

/-- The positions of a hole that moves to its parent. -/
theorem update_move {p : Nat} (hne : i ≠ p) (x : α) (j : Nat) :
    Function.update (Function.update a i (a p)) p x j = if j = p then x else if j = i then a p else a j := by
  by_cases hjp : j = p
  · subst hjp
    simp
  · by_cases hji : j = i
    · subst hji
      simp [hne]
    · simp [hjp, hji]

theorem heap_trickleUp (hcmp : ∀ x ∈ S, ∀ y ∈ S, GoesBy cmp key x y) (htmp : tmp ∈ S) (hi : i < n)
    (ha : ∀ j < n, a j ∈ S) (h : UpReady key n (Function.update a i tmp) i) : Heap key n (trickleUp cmp tmp a i) := by
  fun_induction trickleUp cmp tmp a i with
  | case1 a i hup ih =>
      obtain ⟨hpos, hlt⟩ := hup
      have hp : (i - 1) / 2 < n := by omega
      have hpi : i ≠ (i - 1) / 2 := by omega
      rw [(hcmp tmp htmp _ (ha _ hp)).1] at hlt
      -- what is known of the array before the move
      have hothers : ∀ j, 0 < j → j < n → j ≠ i → (j - 1) / 2 ≠ i → key (a ((j - 1) / 2)) ≤ key (a j) := by
        intro j hj0 hj hji hparent
        have hj := h.others j hj0 hj hji
        rwa [Function.update_of_ne hji, Function.update_of_ne hparent] at hj
      have hbelow : ∀ j, 0 < j → j < n → (j - 1) / 2 = i → key (a ((i - 1) / 2)) ≤ key (a j) := by
        intro j hj0 hj hparent
        have hj := h.below hpos j hj0 hj hparent
        rwa [Function.update_of_ne hpi.symm, Function.update_of_ne (by omega)] at hj
      refine ih hp (fun j hj => ?_) ⟨fun j hj0 hj hjp => ?_, fun hp0 j hj0 hj hjp => ?_⟩
      · by_cases hji : j = i
        · subst hji
          rw [Function.update_self]
          exact ha _ hp
        · rw [Function.update_of_ne hji]
          exact ha j hj
      · rw [update_move hpi, update_move hpi, if_neg hjp]
        by_cases hji : j = i
        · subst hji
          simpa using hlt.le
        · rw [if_neg hji]
          by_cases hparent : (j - 1) / 2 = (i - 1) / 2
          · rw [if_pos hparent]
            have hj := hothers j hj0 hj hji (by omega)
            rw [hparent] at hj
            exact hlt.le.trans hj
          · rw [if_neg hparent]
            by_cases hparent' : (j - 1) / 2 = i
            · rw [if_pos hparent']
              exact hbelow j hj0 hj hparent'
            · rw [if_neg hparent']
              exact hothers j hj0 hj hji hparent'
      · have hpp := hothers ((i - 1) / 2) hp0 hp hpi.symm (by omega)
        rw [update_move hpi, update_move hpi, if_neg (by omega), if_neg (by omega), if_neg (by omega)]
        by_cases hji : j = i
        · rw [if_pos hji]
          exact hpp
        · rw [if_neg hji]
          have hj := hothers j hj0 hj hji (by omega)
          rw [hjp] at hj
          exact hpp.trans hj
  | case2 a i hstop =>
      intro j hj0 hj
      by_cases hji : j = i
      · subst hji
        have hle : ¬ cmp tmp (a ((j - 1) / 2)) < 0 := fun hlt => hstop ⟨hj0, hlt⟩
        rw [(hcmp tmp htmp _ (ha _ (by omega))).1, not_lt] at hle
        rwa [Function.update_self, Function.update_of_ne (by omega)]
      · exact h.others j hj0 hj hji

/-- The child that moves up comes before the other one. -/
theorem which_le (hcmp : ∀ x ∈ S, ∀ y ∈ S, GoesBy cmp key x y) (ha : ∀ j < n, a j ∈ S) {j : Nat} (hj0 : 0 < j)
    (hj : j < n) (hparent : (j - 1) / 2 = i) : key (a (which cmp n a i)) ≤ key (a j) := by
  obtain rfl | rfl : j = 2 * i + 1 ∨ j = 2 * i + 2 := by omega
  · rw [which]
    split_ifs with h
    · have hlt := ((hcmp _ (ha _ hj) _ (ha _ h.1)).2.mp h.2).le
      exact hlt
    · exact le_rfl
  · rw [which]
    split_ifs with h
    · exact le_rfl
    · have hle : ¬ 0 < cmp (a (2 * i + 1)) (a (2 * i + 2)) := fun hlt => h ⟨hj, hlt⟩
      rwa [(hcmp _ (ha _ (by omega)) _ (ha _ hj)).2, not_lt] at hle

theorem heap_trickleDown (hcmp : ∀ x ∈ S, ∀ y ∈ S, GoesBy cmp key x y) (htmp : tmp ∈ S) (hi : i < n)
    (ha : ∀ j < n, a j ∈ S) (h : DownReady key n (Function.update a i tmp) i) :
    Heap key n (trickleDown cmp n tmp a i) := by
  fun_induction trickleDown cmp n tmp a i with
  | case1 a i hchild hstop =>
      have hw : which cmp n a i < n := which_lt hchild
      rw [(hcmp _ (ha _ hw) tmp htmp).2] at hstop
      intro j hj0 hj
      by_cases hparent : (j - 1) / 2 = i
      · have hle := which_le hcmp ha hj0 hj hparent
        rw [hparent, Function.update_self, Function.update_of_ne (by omega)]
        exact hstop.le.trans hle
      · exact h.others j hj0 hj hparent
  | case2 a i hchild hstop ih =>
      have hw : which cmp n a i < n := which_lt hchild
      have hiw := lt_which cmp n a i
      have hparent : (which cmp n a i - 1) / 2 = i := by
        rw [which]
        split <;> omega
      have hle := fun j => which_le (i := i) (j := j) hcmp ha
      rw [(hcmp _ (ha _ hw) tmp htmp).2, not_lt] at hstop
      generalize which cmp n a i = w at hw hiw hparent hle hstop ih ⊢
      have hne : i ≠ w := by omega
      -- what is known of the array before the move
      have hothers : ∀ j, 0 < j → j < n → j ≠ i → (j - 1) / 2 ≠ i → key (a ((j - 1) / 2)) ≤ key (a j) := by
        intro j hj0 hj hji hp
        have hj := h.others j hj0 hj hp
        rwa [Function.update_of_ne hji, Function.update_of_ne hp] at hj
      refine ih hw (fun j hj => ?_) ⟨fun j hj0 hj hjp => ?_, fun hw0 j hj0 hj hjp => ?_⟩
      · by_cases hji : j = i
        · subst hji
          rw [Function.update_self]
          exact ha _ hw
        · rw [Function.update_of_ne hji]
          exact ha j hj
      · rw [update_move hne, update_move hne, if_neg hjp]
        by_cases hjw : j = w
        · rw [if_pos hjw, hjw, hparent, if_pos rfl]
          exact hstop
        · rw [if_neg hjw]
          by_cases hji : j = i
          · subst hji
            have hb := h.below hj0 w (by omega) hw hparent
            rw [Function.update_of_ne (by omega), Function.update_of_ne (by omega)] at hb
            rw [if_pos rfl, if_neg (by omega)]
            exact hb
          · rw [if_neg hji]
            by_cases hp : (j - 1) / 2 = i
            · rw [if_pos hp]
              exact hle j hj0 hj hp
            · rw [if_neg hp]
              exact hothers j hj0 hj hji hp
      · rw [update_move hne, update_move hne, hparent, if_neg hne, if_pos rfl, if_neg (by omega), if_neg (by omega)]
        have hj := hothers j hj0 hj (by omega) (by omega)
        rwa [hjp] at hj
  | case3 a i hleaf =>
      intro j hj0 hj
      exact h.others j hj0 hj (by omega)

/-- Nothing in a heap comes before the first element. -/
theorem Heap.first_le (h : Heap key n a) (hi : i < n) : key (a 0) ≤ key (a i) := by
  induction i using Nat.strongRecOn with
  | ind i ih =>
      obtain rfl | hpos := Nat.eq_zero_or_pos i
      · exact le_rfl
      · calc key (a 0) ≤ key (a ((i - 1) / 2)) := ih _ (by omega) (by omega)
          _ ≤ key (a i) := h i hpos hi

end Order

/-! ### The operations -/

section Operations

variable {κ : Type} [LinearOrder κ] {key : α → κ} {cmp : α → α → Int} {queue : Pqueue α} {data : α}

/-- A queue is in order, and its elements can be compared. -/
structure Pqueue.Valid (cmp : α → α → Int) (key : α → κ) (queue : Pqueue α) : Prop where
  heap : Heap key queue.size queue.array
  compare : ∀ x ∈ queue.contents, ∀ y ∈ queue.contents, GoesBy cmp key x y

theorem valid_create [Inhabited α] : (pqueueCreate : Pqueue α).Valid cmp key :=
  ⟨fun _ _ hj => absurd hj (by simp [pqueueCreate]), fun x hx => by simp [pqueueCreate, mem_contents] at hx⟩

@[simp]
theorem contents_create [Inhabited α] : (pqueueCreate : Pqueue α).contents = 0 := by
  simp [Pqueue.contents, pqueueCreate]

/-- `pqueue_enqueue` adds an element. -/
theorem contents_enqueue (cmp : α → α → Int) (data : α) (queue : Pqueue α) :
    (pqueueEnqueue cmp data queue).contents = data ::ₘ queue.contents := by
  rw [Pqueue.contents, pqueueEnqueue, map_trickleUp _ _ _ (Nat.lt_succ_self _), Function.update_idem,
    Multiset.range_succ, Multiset.map_cons, Function.update_self, Pqueue.contents]
  congr 1
  refine Multiset.map_congr rfl fun j hj => Function.update_of_ne ?_ _ _
  exact (Multiset.mem_range.mp hj).ne

theorem Pqueue.Valid.enqueue (h : queue.Valid cmp key)
    (hcmp : ∀ x ∈ data ::ₘ queue.contents, ∀ y ∈ data ::ₘ queue.contents, GoesBy cmp key x y) :
    (pqueueEnqueue cmp data queue).Valid cmp key := by
  have hmem : ∀ j < queue.size, queue.array j ∈ data ::ₘ queue.contents := fun j hj =>
    Multiset.mem_cons_of_mem (mem_contents.mpr ⟨j, hj, rfl⟩)
  refine ⟨?_, by rwa [contents_enqueue]⟩
  change Heap key (queue.size + 1) (trickleUp cmp data (Function.update queue.array queue.size data) queue.size)
  refine heap_trickleUp (S := {x | x ∈ data ::ₘ queue.contents}) hcmp (by simp)
    (Nat.lt_succ_self _) (fun j hj => ?_) ⟨fun j hj0 hj hji => ?_, fun hi0 j hj0 hj hjp => ?_⟩
  · by_cases hji : j = queue.size
    · simp [hji]
    · rw [Function.update_of_ne hji]
      exact hmem j (by omega)
  · rw [Function.update_idem, Function.update_of_ne hji, Function.update_of_ne (by omega)]
    exact h.heap j hj0 (by omega)
  · omega

/-- `pqueue_dequeue` takes out one element. -/
theorem contents_dequeue (cmp : α → α → Int) (hsize : 0 < queue.size) :
    queue.contents = (pqueueDequeue cmp queue).1 ::ₘ (pqueueDequeue cmp queue).2.contents := by
  obtain ⟨size, a⟩ := queue
  obtain ⟨n, rfl⟩ : ∃ n, size = n + 1 := ⟨size - 1, by simp at hsize; omega⟩
  obtain rfl | hn := Nat.eq_zero_or_pos n
  · simp [pqueueDequeue, Pqueue.contents]
  · have hold : (⟨n + 1, a⟩ : Pqueue α).contents = a n ::ₘ (Multiset.range n).map a := by
      rw [Pqueue.contents, Multiset.range_succ, Multiset.map_cons]
    have hnew : (pqueueDequeue cmp ⟨n + 1, a⟩).2.contents = (Multiset.range n).map (Function.update a 0 (a n)) := by
      rw [Pqueue.contents, pqueueDequeue]
      simp only [Nat.add_sub_cancel, Function.update_self]
      rw [map_trickleDown _ _ _ hn, Function.update_idem]
    have hzero : 0 ∈ Multiset.range n := Multiset.mem_range.mpr hn
    have hrest : ((Multiset.range n).erase 0).map (Function.update a 0 (a n)) = ((Multiset.range n).erase 0).map a := by
      refine Multiset.map_congr rfl fun j hj => Function.update_of_ne ?_ _ _
      exact ((Multiset.nodup_range n).mem_erase_iff.mp hj).1
    calc (⟨n + 1, a⟩ : Pqueue α).contents = a n ::ₘ (0 ::ₘ (Multiset.range n).erase 0).map a := by
          rw [hold, Multiset.cons_erase hzero]
      _ = a 0 ::ₘ a n ::ₘ ((Multiset.range n).erase 0).map a := by
          rw [Multiset.map_cons, Multiset.cons_swap]
      _ = a 0 ::ₘ (0 ::ₘ (Multiset.range n).erase 0).map (Function.update a 0 (a n)) := by
          rw [Multiset.map_cons, Function.update_self, hrest]
      _ = a 0 ::ₘ (pqueueDequeue cmp ⟨n + 1, a⟩).2.contents := by
          rw [Multiset.cons_erase hzero, hnew]

/-- `pqueue_dequeue` takes out an element that no other one comes before. -/
theorem Pqueue.Valid.dequeue (h : queue.Valid cmp key) (hsize : 0 < queue.size) :
    queue.contents = (pqueueDequeue cmp queue).1 ::ₘ (pqueueDequeue cmp queue).2.contents ∧
      (∀ x ∈ queue.contents, key (pqueueDequeue cmp queue).1 ≤ key x) ∧
      (pqueueDequeue cmp queue).2.Valid cmp key := by
  have heq := contents_dequeue cmp hsize
  obtain ⟨size, a⟩ := queue
  obtain ⟨n, rfl⟩ : ∃ n, size = n + 1 := ⟨size - 1, by simp at hsize; omega⟩
  have hmin : ∀ x ∈ (⟨n + 1, a⟩ : Pqueue α).contents, key (a 0) ≤ key x := by
    intro x hx
    obtain ⟨j, hj, rfl⟩ := mem_contents.mp hx
    exact h.heap.first_le hj
  obtain rfl | hn := Nat.eq_zero_or_pos n
  · refine ⟨heq, hmin, fun j hj0 hj => absurd hj (by simp [pqueueDequeue]), fun x hx => ?_⟩
    simp [pqueueDequeue, mem_contents] at hx
  · have hsub : ∀ x ∈ (pqueueDequeue cmp ⟨n + 1, a⟩).2.contents, x ∈ (⟨n + 1, a⟩ : Pqueue α).contents := by
      intro x hx
      rw [heq]
      exact Multiset.mem_cons_of_mem hx
    have hmem : ∀ j ≤ n, a j ∈ (⟨n + 1, a⟩ : Pqueue α).contents := fun j hj =>
      mem_contents.mpr ⟨j, Nat.lt_succ_of_le hj, rfl⟩
    refine ⟨heq, hmin, ?_, fun x hx y hy => h.compare x (hsub x hx) y (hsub y hy)⟩
    simp only [pqueueDequeue, Nat.add_sub_cancel, Function.update_self]
    refine heap_trickleDown (S := {x | x ∈ (⟨n + 1, a⟩ : Pqueue α).contents}) h.compare (hmem n le_rfl) hn
      (fun j hj => ?_) ⟨fun j hj0 hj hjp => ?_, fun hi0 => absurd hi0 (lt_irrefl 0)⟩
    · by_cases hj0 : j = 0
      · rw [hj0, Function.update_self]
        exact hmem n le_rfl
      · rw [Function.update_of_ne hj0]
        exact hmem j hj.le
    · rw [Function.update_idem, Function.update_of_ne hjp, Function.update_of_ne (by omega)]
      exact h.heap j hj0 (show j < n + 1 by omega)

end Operations

section Related

variable {β : Type} {R : α → β → Prop} {cmp : α → α → Int} {cmp' : β → β → Int} {a : Nat → α} {b : Nat → β} {n i : Nat}
  {tmp : α} {tmp' : β}

/-- Two comparisons that say the same of related elements. -/
def Alike (R : α → β → Prop) (cmp : α → α → Int) (cmp' : β → β → Int) : Prop :=
  ∀ x x' y y', R x x' → R y y' → ((cmp x y < 0 ↔ cmp' x' y' < 0) ∧ (0 < cmp x y ↔ 0 < cmp' x' y'))

/-- Two queues with related elements in the same places. -/
structure Pqueue.Related (R : α → β → Prop) (queue : Pqueue α) (queue' : Pqueue β) : Prop where
  size : queue'.size = queue.size
  array : ∀ j < queue.size, R (queue.array j) (queue'.array j)

theorem related_update (h : ∀ j < n, R (a j) (b j)) {x : α} {y : β} (hxy : R x y) :
    ∀ j < n, R (Function.update a i x j) (Function.update b i y j) := by
  intro j hj
  by_cases hji : j = i
  · subst hji
    rwa [Function.update_self, Function.update_self]
  · rw [Function.update_of_ne hji, Function.update_of_ne hji]
    exact h j hj

theorem related_trickleUp (hcmp : Alike R cmp cmp') (htmp : R tmp tmp') (hi : i < n) (h : ∀ j < n, R (a j) (b j)) :
    ∀ j < n, R (trickleUp cmp tmp a i j) (trickleUp cmp' tmp' b i j) := by
  fun_induction trickleUp cmp tmp a i generalizing b with
  | case1 a i hup ih =>
      have hp : (i - 1) / 2 < n := by omega
      have hparent := h _ hp
      rw [trickleUp.eq_def cmp' tmp' b i, if_pos ⟨hup.1, (hcmp _ _ _ _ htmp hparent).1.mp hup.2⟩]
      exact ih hp (related_update h hparent)
  | case2 a i hstop =>
      have hstop' : ¬ (0 < i ∧ cmp' tmp' (b ((i - 1) / 2)) < 0) := fun hup =>
        hstop ⟨hup.1, (hcmp _ _ _ _ htmp (h _ (by omega))).1.mpr hup.2⟩
      rw [trickleUp.eq_def cmp' tmp' b i, if_neg hstop']
      exact related_update h htmp

theorem which_eq (hcmp : Alike R cmp cmp') (h : ∀ j < n, R (a j) (b j)) :
    which cmp' n b i = which cmp n a i := by
  have hiff : (2 * i + 2 < n ∧ 0 < cmp' (b (2 * i + 1)) (b (2 * i + 2))) ↔
      2 * i + 2 < n ∧ 0 < cmp (a (2 * i + 1)) (a (2 * i + 2)) :=
    and_congr_right fun hlt => (hcmp _ _ _ _ (h _ (by omega)) (h _ hlt)).2.symm
  simp only [which, hiff]

theorem related_trickleDown (hcmp : Alike R cmp cmp') (htmp : R tmp tmp') (h : ∀ j < n, R (a j) (b j)) :
    ∀ j < n, R (trickleDown cmp n tmp a i j) (trickleDown cmp' n tmp' b i j) := by
  fun_induction trickleDown cmp n tmp a i generalizing b with
  | case1 a i hchild hstop =>
      have hw : R (a (which cmp n a i)) (b (which cmp n a i)) := h _ (which_lt hchild)
      rw [trickleDown.eq_def cmp' n tmp' b i, if_pos hchild, which_eq hcmp h, if_pos ((hcmp _ _ _ _ hw htmp).2.mp hstop)]
      exact related_update h htmp
  | case2 a i hchild hstop ih =>
      have hw : R (a (which cmp n a i)) (b (which cmp n a i)) := h _ (which_lt hchild)
      rw [trickleDown.eq_def cmp' n tmp' b i, if_pos hchild, which_eq hcmp h,
        if_neg (mt (hcmp _ _ _ _ hw htmp).2.mpr hstop)]
      exact ih (related_update h hw)
  | case3 a i hleaf =>
      rw [trickleDown.eq_def cmp' n tmp' b i, if_neg hleaf]
      exact related_update h htmp

theorem Pqueue.Related.enqueue {queue : Pqueue α} {queue' : Pqueue β} (h : queue.Related R queue')
    (hcmp : Alike R cmp cmp') {x : α} {y : β} (hxy : R x y) :
    (pqueueEnqueue cmp x queue).Related R (pqueueEnqueue cmp' y queue') := by
  obtain ⟨size, array⟩ := queue'
  obtain rfl : size = queue.size := h.size
  refine ⟨rfl, related_trickleUp hcmp hxy (Nat.lt_succ_self _) fun j (hj : j < queue.size + 1) => ?_⟩
  by_cases hjs : j = queue.size
  · subst hjs
    dsimp only
    rwa [Function.update_self, Function.update_self]
  · dsimp only
    rw [Function.update_of_ne hjs, Function.update_of_ne hjs]
    exact h.array j (by omega)

theorem Pqueue.Related.dequeue {queue : Pqueue α} {queue' : Pqueue β} (h : queue.Related R queue')
    (hcmp : Alike R cmp cmp') (hsize : 0 < queue.size) :
    R (pqueueDequeue cmp queue).1 (pqueueDequeue cmp' queue').1 ∧
      (pqueueDequeue cmp queue).2.Related R (pqueueDequeue cmp' queue').2 := by
  obtain ⟨size, array⟩ := queue'
  obtain rfl : size = queue.size := h.size
  have hlast := h.array (queue.size - 1) (by omega)
  refine ⟨h.array 0 hsize, rfl, ?_⟩
  have hupdate := related_update (i := 0) h.array hlast
  refine related_trickleDown hcmp ?_ fun j hj => hupdate j (Nat.lt_of_lt_of_le hj (Nat.sub_le _ _))
  rw [Function.update_self, Function.update_self]
  exact hlast

end Related

end Harry.Queue
