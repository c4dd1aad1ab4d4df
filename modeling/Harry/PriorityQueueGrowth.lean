import Harry.PriorityQueue
import Mathlib.Algebra.Group.Nat.Defs
import Mathlib.Data.List.GetD
import Mathlib.Order.Antisymmetrization

/-! `lib/pqueue.c` with the places of its array. An access behind the last place and an `int` that does not fit are
faults. `pqueue_expand` asks for an array twice as long: where `calloc` has no memory, `pqueue_enqueue` leaves the
element out and says nothing about it. -/

namespace Harry.Queue

variable {α : Type}

/-- What undoes a run of the program. -/
inductive Fault
  | outOfBounds
  | overflow
  deriving DecidableEq, Repr

/-- `struct pqueue`. -/
structure ArrayQueue (α : Type) where
  array : List α
  arraySize : Nat
  size : Nat

namespace ArrayQueue

/-- A number as an `int`. -/
def toInt (n : Nat) : Except Fault Nat :=
  if n < 2 ^ 31 then .ok n else .error .overflow

def read (array : List α) (index : Nat) : Except Fault α :=
  match array[index]? with
  | some data => .ok data
  | none => .error .outOfBounds

def write (array : List α) (index : Nat) (data : α) : Except Fault (List α) :=
  if index < array.length then .ok (array.set index data) else .error .outOfBounds

/-- The loop of `trickle_up`. -/
def trickleUp (cmp : α → α → Int) (tmp : α) (array : List α) (index : Nat) : Except Fault (List α) :=
  if 0 < index then do
    let parent ← read array ((index - 1) / 2)
    if cmp tmp parent < 0 then do
      let array ← write array index parent
      trickleUp cmp tmp array ((index - 1) / 2)
    else write array index tmp
  else write array index tmp
termination_by index
decreasing_by omega

/-- The right child comes before the left one. -/
def rightFirst (cmp : α → α → Int) (size : Nat) (array : List α) (index : Nat) : Except Fault Bool := do
  let right ← toInt (2 * index + 2)
  if right < size then do
    let leftChild ← read array (2 * index + 1)
    let rightChild ← read array right
    return decide (0 < cmp leftChild rightChild)
  else return false

/-- The loop of `trickle_down`. -/
def trickleDown (cmp : α → α → Int) (size : Nat) (tmp : α) (array : List α) (index : Nat) : Except Fault (List α) :=
  if index < size / 2 then do
    let right ← rightFirst cmp size array index
    let child ← read array (if right then 2 * index + 2 else 2 * index + 1)
    if 0 < cmp child tmp then write array index tmp
    else do
      let array ← write array index child
      trickleDown cmp size tmp array (if right then 2 * index + 2 else 2 * index + 1)
  else write array index tmp
termination_by size - index
decreasing_by split <;> omega

/-- `pqueue_create`, with `PQUEUE_INIT_ARRAYSIZE`. -/
def pqueueCreate [Inhabited α] : ArrayQueue α :=
  ⟨List.replicate 32 default, 32, 0⟩

/-- `pqueue_expand`, where `calloc` has `memory` or not. -/
def pqueueExpand [Inhabited α] (memory : Bool) (queue : ArrayQueue α) : Except Fault (Option (ArrayQueue α)) :=
  if memory then do
    -- what `memcpy` reads lies in the old array
    if queue.arraySize ≤ queue.array.length then do
      let arraySize ← toInt (2 * queue.arraySize)
      return some
        ⟨queue.array.take queue.arraySize ++ List.replicate queue.arraySize default, arraySize, queue.size⟩
    else .error .outOfBounds
  else return none

/-- `pqueue_enqueue` once there is room. -/
def place (cmp : α → α → Int) (data : α) (queue : ArrayQueue α) : Except Fault (ArrayQueue α) := do
  let array ← write queue.array queue.size data
  let tmp ← read array queue.size
  let array ← trickleUp cmp tmp array queue.size
  let size ← toInt (queue.size + 1)
  return ⟨array, queue.arraySize, size⟩

/-- `pqueue_enqueue`. -/
def pqueueEnqueue [Inhabited α] (cmp : α → α → Int) (data : α) (memory : Bool) (queue : ArrayQueue α) :
    Except Fault (ArrayQueue α) := do
  let size ← toInt (queue.size + 2)
  if queue.arraySize ≤ size then do
    match ← pqueueExpand memory queue with
    | none => return queue
    | some queue => place cmp data queue
  else place cmp data queue

/-- `pqueue_dequeue`. Without elements the last one would be in front of the array. -/
def pqueueDequeue (cmp : α → α → Int) (queue : ArrayQueue α) : Except Fault (α × ArrayQueue α) := do
  let data ← read queue.array 0
  if queue.size = 0 then .error .outOfBounds
  let last ← read queue.array (queue.size - 1)
  let array ← write queue.array 0 last
  let tmp ← read array 0
  let array ← trickleDown cmp (queue.size - 1) tmp array 0
  return (data, ⟨array, queue.arraySize, queue.size - 1⟩)

section Places

variable {array : List α} {index : Nat} {cmp : α → α → Int} {tmp data : α} {size : Nat}

theorem toInt_of_lt {n : Nat} (h : n < 2 ^ 31) : toInt n = .ok n :=
  if_pos h

theorem write_of_lt (h : index < array.length) : write array index data = .ok (array.set index data) :=
  if_pos h

variable [Inhabited α]

/-- What the places hold. -/
def placed (array : List α) (j : Nat) : α :=
  array.getD j default

theorem read_of_lt (h : index < array.length) : read array index = .ok (placed array index) := by
  simp [read, placed, h]

theorem placed_set (h : index < array.length) :
    placed (array.set index data) = Function.update (placed array) index data := by
  funext j
  by_cases hj : j = index
  · subst hj
    simp [placed, h]
  · rw [Function.update_of_ne hj]
    simp [placed, List.getElem?_set_ne (Ne.symm hj)]

/-- The places that `work` leaves, and what they hold then. -/
def Leaves (work : Except Fault (List α)) (length : Nat) (contents : Nat → α) : Prop :=
  ∃ array, work = .ok array ∧ array.length = length ∧ placed array = contents

theorem leaves_write (h : index < array.length) :
    Leaves (write array index data) array.length (Function.update (placed array) index data) :=
  ⟨_, write_of_lt h, List.length_set, placed_set h⟩

/-- `trickle_up` stays inside the array. -/
theorem leaves_trickleUp (cmp : α → α → Int) (tmp : α) (h : index < array.length) :
    Leaves (trickleUp cmp tmp array index) array.length (Queue.trickleUp cmp tmp (placed array) index) := by
  induction index using Nat.strongRecOn generalizing array with
  | ind index ih =>
      have hparent : (index - 1) / 2 < array.length := by omega
      rw [trickleUp, Queue.trickleUp, read_of_lt hparent]
      by_cases hpos : 0 < index
      · rw [if_pos hpos]
        by_cases hlt : cmp tmp (placed array ((index - 1) / 2)) < 0
        · have hset : (index - 1) / 2 < (array.set index (placed array ((index - 1) / 2))).length := by
            rwa [List.length_set]
          have hmoved := ih ((index - 1) / 2) (by omega) hset
          rw [List.length_set, placed_set h] at hmoved
          rw [if_pos ⟨hpos, hlt⟩]
          change Leaves (if _ then _ else _) _ _
          rw [if_pos hlt, write_of_lt h]
          exact hmoved
        · rw [if_neg fun hup => hlt hup.2]
          change Leaves (if _ then _ else _) _ _
          rw [if_neg hlt]
          exact leaves_write h
      · rw [if_neg hpos, if_neg fun hup => hpos hup.1]
        exact leaves_write h

theorem rightFirst_eq (cmp : α → α → Int) (hindex : index < size / 2) (hsize : size ≤ array.length)
    (hint : size < 2 ^ 31) :
    ∃ right, rightFirst cmp size array index = .ok right ∧
      which cmp size (placed array) index = if right then 2 * index + 2 else 2 * index + 1 := by
  rw [rightFirst, toInt_of_lt (by omega), which]
  by_cases hright : 2 * index + 2 < size
  · refine ⟨decide (0 < cmp (placed array (2 * index + 1)) (placed array (2 * index + 2))), ?_, ?_⟩
    · change (if _ then _ else _) = _
      rw [if_pos hright, read_of_lt (by omega), read_of_lt (by omega)]
      rfl
    · simp [hright]
  · refine ⟨false, ?_, ?_⟩
    · change (if _ then _ else _) = _
      rw [if_neg hright]
      rfl
    · simp [hright]

/-- `trickle_down` stays inside the array. -/
theorem leaves_trickleDown (cmp : α → α → Int) (tmp : α) (h : index < array.length) (hsize : size ≤ array.length)
    (hint : size < 2 ^ 31) :
    Leaves (trickleDown cmp size tmp array index) array.length
      (Queue.trickleDown cmp size tmp (placed array) index) := by
  generalize hleft : size - index = left
  induction left using Nat.strongRecOn generalizing array index with
  | ind left ih =>
      subst hleft
      rw [trickleDown, Queue.trickleDown]
      by_cases hchild : index < size / 2
      · obtain ⟨right, hright, hwhich⟩ := rightFirst_eq cmp hchild hsize hint
        have hlt : which cmp size (placed array) index < size := which_lt hchild
        have hgt : index < which cmp size (placed array) index := lt_which cmp size (placed array) index
        rw [if_pos hchild, if_pos hchild, hright]
        change Leaves (read array (if right then _ else _) >>= _) _ _
        rw [← hwhich, read_of_lt (by omega)]
        by_cases hstop : 0 < cmp (placed array (which cmp size (placed array) index)) tmp
        · change Leaves (if _ then _ else _) _ _
          rw [if_pos hstop, if_pos hstop]
          exact leaves_write h
        · change Leaves (if _ then _ else _) _ _
          rw [if_neg hstop, if_neg hstop, write_of_lt h]
          have hset : which cmp size (placed array) index <
              (array.set index (placed array (which cmp size (placed array) index))).length := by
            rw [List.length_set]
            omega
          have hmoved := ih (size - which cmp size (placed array) index) (by omega) hset (by rwa [List.length_set]) rfl
          rw [List.length_set, placed_set h] at hmoved
          exact hmoved
      · rw [if_neg hchild, if_neg hchild]
        exact leaves_write h

end Places

section Operations

variable [Inhabited α] {cmp : α → α → Int} {data : α} {memory : Bool} {queue : ArrayQueue α}

/-- The array has the places that the queue counts with, two of them free. -/
structure Sized (queue : ArrayQueue α) : Prop where
  places : queue.array.length = queue.arraySize
  free : queue.size + 2 ≤ queue.arraySize
  int : queue.arraySize < 2 ^ 31

/-- The queue without an end to its array. -/
def unbounded (queue : ArrayQueue α) : Pqueue α :=
  ⟨queue.size, placed queue.array⟩

/-- The elements of a queue. -/
def contents (queue : ArrayQueue α) : Multiset α :=
  queue.unbounded.contents

theorem sized_create : (pqueueCreate : ArrayQueue α).Sized :=
  ⟨List.length_replicate, by simp [pqueueCreate], by simp [pqueueCreate]⟩

theorem unbounded_create : (pqueueCreate : ArrayQueue α).unbounded = Queue.pqueueCreate := by
  have hplaced : placed (List.replicate 32 default) = fun _ => (default : α) := by
    funext j
    rw [placed, List.getD_eq_getElem?_getD, List.getElem?_getD_replicate_default_eq]
  rw [unbounded, Queue.pqueueCreate, ← hplaced]
  rfl

/-- No room in the array, and no memory for a longer one. -/
def Refuses (queue : ArrayQueue α) (memory : Bool) : Prop :=
  queue.arraySize ≤ queue.size + 2 ∧ memory = false

instance : Decidable (queue.Refuses memory) :=
  inferInstanceAs (Decidable (_ ∧ _))

/-- What `pqueue_enqueue` leaves once it enters the element. -/
def Enters (cmp : α → α → Int) (data : α) (queue queue' : ArrayQueue α) : Prop :=
  queue'.Sized ∧ queue'.unbounded = Queue.pqueueEnqueue cmp data queue.unbounded

theorem place_eq (cmp : α → α → Int) (data : α) (h : queue.Sized) (hroom : queue.size + 2 < queue.arraySize) :
    ∃ queue', place cmp data queue = .ok queue' ∧ Enters cmp data queue queue' ∧
      queue'.arraySize = queue.arraySize := by
  have hlt : queue.size < queue.array.length := by
    have := h.places
    omega
  have hint := h.int
  have hset : queue.size < (queue.array.set queue.size data).length := by rwa [List.length_set]
  have htmp : placed (queue.array.set queue.size data) queue.size = data := by
    rw [placed_set hlt, Function.update_self]
  obtain ⟨array, harray, hlength, hplaced⟩ := leaves_trickleUp cmp data hset
  refine ⟨⟨array, queue.arraySize, queue.size + 1⟩, ?_, ⟨⟨?_, ?_, hint⟩, ?_⟩, rfl⟩
  · rw [place, write_of_lt hlt]
    change (read _ _ >>= _) = _
    rw [read_of_lt hset, htmp]
    change (trickleUp _ _ _ _ >>= _) = _
    rw [harray, toInt_of_lt (by omega)]
    rfl
  · rw [hlength, List.length_set, h.places]
  · change queue.size + 1 + 2 ≤ queue.arraySize
    omega
  · rw [unbounded, hplaced, placed_set hlt]
    rfl

/-- The array that `pqueue_expand` leaves. -/
def expanded (queue : ArrayQueue α) : ArrayQueue α :=
  ⟨queue.array.take queue.arraySize ++ List.replicate queue.arraySize default, 2 * queue.arraySize, queue.size⟩

theorem pqueueExpand_eq (h : queue.Sized) (hint : queue.arraySize < 2 ^ 30) :
    pqueueExpand true queue = .ok (some queue.expanded) := by
  rw [pqueueExpand, if_pos rfl, if_pos h.places.ge, toInt_of_lt (by omega)]
  rfl

theorem pqueueExpand_overflow (h : queue.Sized) (hint : 2 ^ 30 ≤ queue.arraySize) :
    pqueueExpand true queue = .error .overflow := by
  rw [pqueueExpand, if_pos rfl, if_pos h.places.ge, toInt, if_neg (by omega)]
  rfl

theorem Sized.expanded (h : queue.Sized) (hint : queue.arraySize < 2 ^ 30) : queue.expanded.Sized := by
  have hfree := h.free
  refine ⟨?_, ?_, ?_⟩
  · rw [ArrayQueue.expanded, List.length_append, List.length_take, List.length_replicate, h.places]
    change min queue.arraySize queue.arraySize + queue.arraySize = 2 * queue.arraySize
    omega
  · change queue.size + 2 ≤ 2 * queue.arraySize
    omega
  · change 2 * queue.arraySize < 2 ^ 31
    omega

theorem unbounded_expanded (h : queue.Sized) : queue.expanded.unbounded = queue.unbounded := by
  have hplaced : placed queue.expanded.array = placed queue.array := by
    funext j
    rw [ArrayQueue.expanded, ← h.places, List.take_length, placed, placed]
    by_cases hj : j < queue.array.length
    · rw [List.getD_append _ _ _ _ hj]
    · rw [List.getD_append_right _ _ _ _ (by omega), List.getD_eq_default queue.array _ (by omega),
        List.getD_eq_getElem?_getD, List.getElem?_getD_replicate_default_eq]
  rw [unbounded, unbounded, hplaced]
  rfl

/-- `pqueue_enqueue` on a queue with room. -/
theorem pqueueEnqueue_of_room (cmp : α → α → Int) (data : α) (memory : Bool) (h : queue.Sized)
    (hroom : queue.size + 2 < queue.arraySize) :
    ∃ queue', pqueueEnqueue cmp data memory queue = .ok queue' ∧ Enters cmp data queue queue' ∧
      queue'.arraySize = queue.arraySize := by
  have hint := h.int
  obtain ⟨queue', hplace, henters⟩ := place_eq cmp data h hroom
  refine ⟨queue', ?_, henters⟩
  rw [pqueueEnqueue, toInt_of_lt (by omega)]
  change (if _ then _ else _) = _
  rwa [if_neg (by omega)]

/-- `pqueue_enqueue` on a full queue that can grow. -/
theorem pqueueEnqueue_of_grows (cmp : α → α → Int) (data : α) (h : queue.Sized) (hfull : queue.arraySize ≤ queue.size + 2)
    (hint : queue.arraySize < 2 ^ 30) :
    ∃ queue', pqueueEnqueue cmp data true queue = .ok queue' ∧ Enters cmp data queue queue' := by
  have hfree := h.free
  have hroom : queue.expanded.size + 2 < queue.expanded.arraySize := by
    change queue.size + 2 < 2 * queue.arraySize
    omega
  obtain ⟨queue', hplace, ⟨hsized, henters⟩, -⟩ := place_eq cmp data (h.expanded hint) hroom
  refine ⟨queue', ?_, hsized, by rw [henters, unbounded_expanded h]⟩
  rw [pqueueEnqueue, toInt_of_lt (by omega)]
  change (if _ then _ else _) = _
  rw [if_pos hfull, pqueueExpand_eq h hint]
  exact hplace

/-- `pqueue_enqueue` on a full queue that gets no memory leaves it as it is. -/
theorem pqueueEnqueue_of_refuses (cmp : α → α → Int) (data : α) (h : queue.Sized) (hrefuses : queue.Refuses memory) :
    pqueueEnqueue cmp data memory queue = .ok queue := by
  obtain ⟨hfull, rfl⟩ := hrefuses
  have hfree := h.free
  have hint := h.int
  rw [pqueueEnqueue, toInt_of_lt (by omega)]
  change (if _ then _ else _) = _
  rw [if_pos hfull]
  rfl

/-- `pqueue_enqueue` on a full queue whose array is as long as it gets. -/
theorem pqueueEnqueue_of_overflow (h : queue.Sized) (hfull : queue.arraySize ≤ queue.size + 2)
    (hint : 2 ^ 30 ≤ queue.arraySize) : pqueueEnqueue cmp data true queue = .error .overflow := by
  have hfree := h.free
  have hint' := h.int
  rw [pqueueEnqueue, toInt_of_lt (by omega)]
  change (if _ then _ else _) = _
  rw [if_pos hfull, pqueueExpand_overflow h hint]
  rfl

/-- `pqueue_dequeue` on a queue with elements. -/
theorem pqueueDequeue_eq (cmp : α → α → Int) (h : queue.Sized) (hsize : 0 < queue.size) :
    ∃ data queue', pqueueDequeue cmp queue = .ok (data, queue') ∧ queue'.Sized ∧
      (data, queue'.unbounded) = Queue.pqueueDequeue cmp queue.unbounded := by
  have hplaces := h.places
  have hfree := h.free
  have hint := h.int
  have hzero : 0 < queue.array.length := by omega
  have hlast : queue.size - 1 < queue.array.length := by omega
  have hset : 0 < (queue.array.set 0 (placed queue.array (queue.size - 1))).length := by rwa [List.length_set]
  have hsize' : queue.size - 1 ≤ (queue.array.set 0 (placed queue.array (queue.size - 1))).length := by
    rw [List.length_set]
    omega
  obtain ⟨array, harray, hlength, hplaced⟩ := leaves_trickleDown cmp
    (placed (queue.array.set 0 (placed queue.array (queue.size - 1))) 0) hset hsize' (by omega)
  refine ⟨placed queue.array 0, ⟨array, queue.arraySize, queue.size - 1⟩, ?_, ⟨?_, ?_, hint⟩, ?_⟩
  · rw [pqueueDequeue, read_of_lt hzero]
    change (if _ then _ else _) = _
    rw [if_neg hsize.ne', read_of_lt hlast]
    change (write _ _ _ >>= _) = _
    rw [write_of_lt hzero]
    change (read _ _ >>= _) = _
    rw [read_of_lt hset]
    change (trickleDown _ _ _ _ _ >>= _) = _
    rw [harray]
    rfl
  · rw [hlength, List.length_set, hplaces]
  · change queue.size - 1 + 2 ≤ queue.arraySize
    omega
  · rw [unbounded, hplaced, placed_set hzero]
    rfl

end Operations

end ArrayQueue

/-! ### Runs -/

/-- A comparison that puts elements in an order, up to elements that are alike. -/
structure TotalPreorder (cmp : α → α → Int) : Prop where
  swap : ∀ x y, cmp x y < 0 ↔ 0 < cmp y x
  trans : ∀ x y z, cmp x y ≤ 0 → cmp y z ≤ 0 → cmp x z ≤ 0

/-- The comparison goes by a key in a linear order. -/
theorem TotalPreorder.exists_key {cmp : α → α → Int} (h : TotalPreorder cmp) :
    ∃ (κ : Type) (_ : LinearOrder κ) (key : α → κ), ∀ x y, GoesBy cmp key x y := by
  classical
  have hrefl : ∀ x, cmp x x ≤ 0 := by
    intro x
    have hx := h.swap x x
    omega
  have htotal : ∀ x y, cmp x y ≤ 0 ∨ cmp y x ≤ 0 := by
    intro x y
    have hxy := h.swap y x
    omega
  have hlt : ∀ x y, cmp x y < 0 ↔ cmp x y ≤ 0 ∧ ¬ cmp y x ≤ 0 := by
    intro x y
    have hxy := h.swap x y
    omega
  let _ : Preorder α :=
    { le := fun x y => cmp x y ≤ 0
      lt := fun x y => cmp x y < 0
      le_refl := hrefl
      le_trans := h.trans
      lt_iff_le_not_ge := hlt }
  have _ : Std.Total (α := α) (· ≤ ·) := ⟨htotal⟩
  refine ⟨Antisymmetrization α (· ≤ ·), inferInstance, toAntisymmetrization (· ≤ ·), fun x y => ⟨?_, ?_⟩⟩
  · rw [toAntisymmetrization_lt_toAntisymmetrization_iff]
    exact Iff.rfl
  · rw [toAntisymmetrization_lt_toAntisymmetrization_iff]
    exact (h.swap y x).symm

/-- A queue with what has been done to it: what `pqueue_enqueue` was called with, which of that it left out, and what
`pqueue_dequeue` returned, each time with the elements of the queue at the call. -/
structure Machine (α : Type) where
  queue : ArrayQueue α
  enqueued : Multiset α
  refused : Multiset α
  dequeued : Multiset α
  answers : List (α × Multiset α)

/-- The machines that calls lead to. Each call of `pqueue_enqueue` finds memory or not. -/
inductive Reached [Inhabited α] (cmp : α → α → Int) : Machine α → Prop
  | create : Reached cmp ⟨ArrayQueue.pqueueCreate, 0, 0, 0, []⟩
  | enqueue {machine : Machine α} {data : α} {memory : Bool} {queue : ArrayQueue α} (h : Reached cmp machine)
      (hcall : machine.queue.pqueueEnqueue cmp data memory = .ok queue) :
      Reached cmp
        ⟨queue, data ::ₘ machine.enqueued,
          if machine.queue.Refuses memory then data ::ₘ machine.refused else machine.refused, machine.dequeued,
          machine.answers⟩
  | dequeue {machine : Machine α} {data : α} {queue : ArrayQueue α} (h : Reached cmp machine)
      (hsize : 0 < machine.queue.size) (hcall : machine.queue.pqueueDequeue cmp = .ok (data, queue)) :
      Reached cmp
        ⟨queue, machine.enqueued, machine.refused, data ::ₘ machine.dequeued,
          (data, machine.queue.contents) :: machine.answers⟩

/-- What holds between two calls. -/
structure Machine.Kept (cmp : α → α → Int) [Inhabited α] (machine : Machine α) : Prop where
  heap : ∀ j, 0 < j → j < machine.queue.size → ∃ parent child, machine.queue.array[(j - 1) / 2]? = some parent ∧
    machine.queue.array[j]? = some child ∧ ¬ cmp child parent < 0
  elements : machine.queue.contents + machine.dequeued + machine.refused = machine.enqueued
  least : ∀ answer ∈ machine.answers, answer.1 ∈ answer.2 ∧ ∀ x ∈ answer.2, ¬ cmp x answer.1 < 0
  places : machine.queue.array.length = machine.queue.arraySize
  size : machine.queue.size < machine.queue.arraySize

/-- How the next call goes: no access is outside the array, and an array of fewer than `2 ^ 30` places can grow. -/
structure Machine.Goes (cmp : α → α → Int) [Inhabited α] (machine : Machine α) : Prop where
  enqueue : ∀ data memory, (∃ queue, machine.queue.pqueueEnqueue cmp data memory = .ok queue) ∨
    2 ^ 30 ≤ machine.queue.arraySize ∧ machine.queue.arraySize ≤ machine.queue.size + 2 ∧
      machine.queue.pqueueEnqueue cmp data memory = .error .overflow
  refuse : ∀ data memory, machine.queue.Refuses memory →
    machine.queue.pqueueEnqueue cmp data memory = .ok machine.queue
  dequeue : 0 < machine.queue.size → ∃ data queue, machine.queue.pqueueDequeue cmp = .ok (data, queue)

section Runs

variable [Inhabited α] {cmp : α → α → Int} {machine : Machine α}

theorem ArrayQueue.Sized.goes (h : machine.queue.Sized) : machine.Goes cmp := by
  refine ⟨fun data memory => ?_, fun data memory hrefuses => ArrayQueue.pqueueEnqueue_of_refuses cmp _ h hrefuses,
    fun hsize => ?_⟩
  · by_cases hroom : machine.queue.size + 2 < machine.queue.arraySize
    · obtain ⟨queue, hqueue, -⟩ := ArrayQueue.pqueueEnqueue_of_room cmp data memory h hroom
      exact .inl ⟨queue, hqueue⟩
    · have hfull : machine.queue.arraySize ≤ machine.queue.size + 2 := by omega
      cases memory with
      | false => exact .inl ⟨_, ArrayQueue.pqueueEnqueue_of_refuses cmp _ h ⟨hfull, rfl⟩⟩
      | true =>
          by_cases hint : machine.queue.arraySize < 2 ^ 30
          · obtain ⟨queue, hqueue, -⟩ := ArrayQueue.pqueueEnqueue_of_grows cmp data h hfull hint
            exact .inl ⟨queue, hqueue⟩
          · exact .inr ⟨by omega, hfull, ArrayQueue.pqueueEnqueue_of_overflow h hfull (by omega)⟩
  · obtain ⟨data, queue, hqueue, -⟩ := ArrayQueue.pqueueDequeue_eq cmp h hsize
    exact ⟨data, queue, hqueue⟩

/-- What `pqueue_enqueue` leaves when it returns. -/
theorem ArrayQueue.Sized.enqueue {queue queue' : ArrayQueue α} {data : α} {memory : Bool} (h : queue.Sized)
    (hcall : queue.pqueueEnqueue cmp data memory = .ok queue') :
    queue.Refuses memory ∧ queue' = queue ∨ ¬ queue.Refuses memory ∧ ArrayQueue.Enters cmp data queue queue' := by
  by_cases hroom : queue.size + 2 < queue.arraySize
  · obtain ⟨entered, hentered, henters, -⟩ := ArrayQueue.pqueueEnqueue_of_room cmp data memory h hroom
    rw [hcall, Except.ok.injEq] at hentered
    subst hentered
    refine .inr ⟨fun hrefuses => ?_, henters⟩
    have := hrefuses.1
    omega
  · have hfull : queue.arraySize ≤ queue.size + 2 := by omega
    cases memory with
    | false =>
        rw [ArrayQueue.pqueueEnqueue_of_refuses cmp _ h ⟨hfull, rfl⟩, Except.ok.injEq] at hcall
        exact .inl ⟨⟨hfull, rfl⟩, hcall.symm⟩
    | true =>
        by_cases hint : queue.arraySize < 2 ^ 30
        · obtain ⟨entered, hentered, henters⟩ := ArrayQueue.pqueueEnqueue_of_grows cmp data h hfull hint
          rw [hcall, Except.ok.injEq] at hentered
          subst hentered
          exact .inr ⟨fun hrefuses => absurd hrefuses.2 (by decide), henters⟩
        · rw [ArrayQueue.pqueueEnqueue_of_overflow h hfull (by omega)] at hcall
          cases hcall

/-- What holds of the machine on the way. -/
structure Machine.Sound (cmp : α → α → Int) {κ : Type} [LinearOrder κ] (key : α → κ) (machine : Machine α) : Prop where
  sized : machine.queue.Sized
  valid : machine.queue.unbounded.Valid cmp key
  elements : machine.queue.contents + machine.dequeued + machine.refused = machine.enqueued
  least : ∀ answer ∈ machine.answers, answer.1 ∈ answer.2 ∧ ∀ x ∈ answer.2, key answer.1 ≤ key x

variable {κ : Type} [LinearOrder κ] {key : α → κ}

theorem sound_of_reached (hkey : ∀ x y, GoesBy cmp key x y) (h : Reached cmp machine) : machine.Sound cmp key := by
  induction h with
  | create =>
      refine ⟨ArrayQueue.sized_create, ?_, ?_, fun answer hanswer => nomatch hanswer⟩
      · rw [ArrayQueue.unbounded_create]
        exact valid_create
      · rw [ArrayQueue.contents, ArrayQueue.unbounded_create, contents_create]
        rfl
  | @enqueue machine data memory queue _ hcall ih =>
      obtain ⟨hrefuses, rfl⟩ | ⟨henters, hsized, hqueue⟩ := ih.sized.enqueue hcall
      · refine ⟨ih.sized, ih.valid, ?_, ih.least⟩
        change _ + _ + (if _ then _ else _) = _
        rw [if_pos hrefuses, Multiset.add_cons, ih.elements]
      · refine ⟨hsized, ?_, ?_, ih.least⟩
        · rw [hqueue]
          exact ih.valid.enqueue fun x _ y _ => hkey x y
        · change _ + _ + (if _ then _ else _) = _
          rw [if_neg henters, ArrayQueue.contents, hqueue, contents_enqueue, Multiset.cons_add, Multiset.cons_add]
          exact congrArg (data ::ₘ ·) ih.elements
  | @dequeue machine data queue _ hsize hcall ih =>
      obtain ⟨least, left, hleft, hsized, hunbounded⟩ := ArrayQueue.pqueueDequeue_eq cmp ih.sized hsize
      rw [hcall, Except.ok.injEq, Prod.mk.injEq] at hleft
      obtain ⟨rfl, rfl⟩ := hleft
      obtain ⟨hcontents, hmin, hvalid⟩ := ih.valid.dequeue hsize
      rw [← hunbounded] at hcontents hmin hvalid
      refine ⟨hsized, hvalid, ?_, fun answer hanswer => ?_⟩
      · change queue.contents + data ::ₘ machine.dequeued + machine.refused = machine.enqueued
        rw [← ih.elements, Multiset.add_cons, ← Multiset.cons_add]
        exact congrArg (· + machine.dequeued + machine.refused) hcontents.symm
      · obtain rfl | hanswer := List.mem_cons.mp hanswer
        · refine ⟨?_, hmin⟩
          have hmem := Multiset.mem_cons_self data queue.contents
          rwa [ArrayQueue.contents, ← hcontents] at hmem
        · exact ih.least answer hanswer

theorem Machine.Sound.kept (hkey : ∀ x y, GoesBy cmp key x y) (h : machine.Sound cmp key) : machine.Kept cmp := by
  have hplaces := h.sized.places
  have hfree := h.sized.free
  have hplaced : ∀ j < machine.queue.size, machine.queue.array[j]? = some (machine.queue.unbounded.array j) := by
    intro j hj
    have hlt : j < machine.queue.array.length := by omega
    rw [List.getElem?_eq_getElem hlt, ← List.getD_eq_getElem _ default hlt]
    rfl
  refine ⟨fun j hj0 hj => ⟨_, _, hplaced _ (by omega), hplaced j hj, ?_⟩, h.elements, fun answer hanswer => ?_, hplaces,
    by omega⟩
  · rw [(hkey _ _).1, not_lt]
    exact h.valid.heap j hj0 hj
  · obtain ⟨hmem, hmin⟩ := h.least answer hanswer
    refine ⟨hmem, fun x hx => ?_⟩
    rw [(hkey _ _).1, not_lt]
    exact hmin x hx

/-- For any order and any calls the array is a heap between two calls, the queue has what was entered and not taken out,
and what was taken out came before the rest. The next call stays inside the array. Only what finds no room and no memory
is left out. -/
theorem pqueue_kept {α : Type} [Inhabited α] {cmp : α → α → Int} (hcmp : TotalPreorder cmp) {machine : Machine α}
    (h : Reached cmp machine) : machine.Kept cmp ∧ machine.Goes cmp := by
  obtain ⟨κ, _, key, hkey⟩ := hcmp.exists_key
  have hsound := sound_of_reached hkey h
  exact ⟨hsound.kept hkey, hsound.sized.goes⟩

/-- The smaller number first. -/
def compareNat (x y : Nat) : Int :=
  x - y

theorem totalPreorder_compareNat : TotalPreorder compareNat :=
  ⟨fun x y => by simp only [compareNat]; omega, fun x y z => by simp only [compareNat]; omega⟩

theorem pqueue_kept_pair : ∃ machine : Machine Nat, machine.enqueued = {3, 5} ∧
    machine.Kept compareNat ∧ machine.Goes compareNat := by
  obtain ⟨first, hfirst, ⟨hsized, -⟩, hsize⟩ := ArrayQueue.pqueueEnqueue_of_room compareNat 5 true
    ArrayQueue.sized_create (by simp [ArrayQueue.pqueueCreate])
  have hgoes : (⟨first, 0, 0, 0, []⟩ : Machine Nat).Goes compareNat := ArrayQueue.Sized.goes hsized
  obtain ⟨second, hsecond⟩ | ⟨hint, -⟩ := hgoes.enqueue 3 true
  · refine ⟨_, ?_, pqueue_kept totalPreorder_compareNat (.enqueue (.enqueue .create hfirst) hsecond)⟩
    rfl
  · change 2 ^ 30 ≤ first.arraySize at hint
    rw [hsize] at hint
    simp [ArrayQueue.pqueueCreate] at hint

/-- The queue has room for thirty elements at first. -/
theorem exists_reached (cmp : Nat → Nat → Int) {k : Nat} (hk : k ≤ 30) : ∃ machine, Reached cmp machine ∧
    machine.queue.Sized ∧ machine.queue.arraySize = 32 ∧ machine.queue.size = k ∧ machine.enqueued.card = k ∧
    machine.dequeued = 0 := by
  induction k with
  | zero => exact ⟨_, .create, ArrayQueue.sized_create, rfl, rfl, rfl, rfl⟩
  | succ k ih =>
      obtain ⟨machine, hreached, hsized, hplaces, hsize, hcard, hdequeued⟩ := ih (by omega)
      obtain ⟨queue, hqueue, ⟨hsized', hunbounded⟩, hplaces'⟩ := ArrayQueue.pqueueEnqueue_of_room cmp k true
        hsized (by omega)
      refine ⟨_, .enqueue hreached hqueue, hsized', hplaces'.trans hplaces, ?_, ?_, hdequeued⟩
      · have hsize' := congrArg Pqueue.size hunbounded
        exact hsize'.trans (congrArg (· + 1) hsize)
      · rw [Multiset.card_cons, hcard]

/-- The thirty-first element finds no room; without memory the queue does not have it. -/
theorem not_pqueue_kept : TotalPreorder compareNat ∧ ∃ machine, Reached compareNat machine ∧
    machine.queue.contents + machine.dequeued ≠ machine.enqueued := by
  obtain ⟨machine, hreached, hsized, hplaces, hsize, hcard, hdequeued⟩ := exists_reached compareNat (le_refl 30)
  have hrefuses : machine.queue.Refuses false := ⟨by omega, rfl⟩
  refine ⟨totalPreorder_compareNat, _,
    .enqueue hreached (ArrayQueue.pqueueEnqueue_of_refuses compareNat 30 hsized hrefuses), fun heq => ?_⟩
  have hcards := congrArg Multiset.card heq
  have hcontents : machine.queue.contents.card = 30 := by
    rw [ArrayQueue.contents, Pqueue.contents, Multiset.card_map, Multiset.card_range]
    exact hsize
  simp [hcontents, hdequeued, hcard] at hcards

end Runs

end Harry.Queue
