import Mathlib.Data.List.Sort
import Mathlib.Logic.Function.Basic
import Harry.BaseRadix

/-! `lib/table.c`: a tree of nodes that are addressed by prefixes, with what a user hangs on a node (`info`) and the
number of those who hold it (`lock`). A prefix of which no bit behind its length is set is the string of its bits, so
that `prefix_match` is `<+:`, `prefix_bit` is `bitAt` and `route_common` is `common`; a pointer to a node is the
prefix of the node. A node goes when it is unlocked for the last time and has no two branches. The lock is a natural
number here, which is that of the source while there are fewer than 2^32 holds of a node. -/

namespace Harry.Table

open Harry.Base

variable {α : Type}

/-- `struct route_table` with its nodes. -/
structure RouteTable (α : Type) where
  top : Radix
  info : List Bool → Option α
  lock : List Bool → Nat

/-- `route_table_init`. -/
def routeTableInit : RouteTable α :=
  ⟨.nil, fun _ => none, fun _ => 0⟩

def RouteTable.setInfo (t : RouteTable α) (b : List Bool) (i : Option α) : RouteTable α :=
  { t with info := Function.update t.info b i }

/-- `route_lock_node`. -/
def routeLockNode (t : RouteTable α) (b : List Bool) : RouteTable α :=
  { t with lock := Function.update t.lock b (t.lock b + 1) }

/-- The tree without a node that has at most one branch, which takes its place. -/
def splice (b : List Bool) : Radix → Radix
  | .nil => .nil
  | .node p l r =>
    if p = b then if l = .nil then r else l
    else if bitAt b p.length then .node p l (splice b r)
    else .node p (splice b l) r

/-- `route_node_delete`. There is no result if an assertion fails. The first argument bounds the number of nodes that
can go. -/
def routeNodeDelete : Nat → RouteTable α → List Bool → Option (RouteTable α)
  | 0, _, _ => none
  | n + 1, t, b =>
    if t.lock b ≠ 0 ∨ t.info b ≠ none then none
    else
      match t.top.sub b with
      | .nil => none
      | .node _ l r =>
        if l ≠ .nil ∧ r ≠ .nil then some t
        else
          match t.top.parent b with
          | none => some { t with top := splice b t.top }
          | some p =>
            if t.lock p = 0 then routeNodeDelete n { t with top := splice b t.top } p
            else some { t with top := splice b t.top }

/-- `route_unlock_node`. -/
def routeUnlockNode (t : RouteTable α) (b : List Bool) : Option (RouteTable α) :=
  match t.lock b with
  | 0 => none
  | 1 =>
    let t' := { t with lock := Function.update t.lock b 0 }
    routeNodeDelete t'.top.nodes.length t' b
  | n + 2 => some { t with lock := Function.update t.lock b (n + 1) }

/-- The walk of `route_node_lookup`. -/
def lookupFrom (info : List Bool → Option α) (k : List Bool) : Radix → Option (List Bool)
  | .nil => none
  | .node p l r =>
    if p <+: k then
      if p.length = k.length ∧ (info p).isSome then some p
      else if bitAt k p.length then lookupFrom info k r
      else lookupFrom info k l
    else none

/-- A pointer that may be null, locked if it is not. -/
def RouteTable.lockNode? (t : RouteTable α) : Option (List Bool) → RouteTable α
  | none => t
  | some b => routeLockNode t b

/-- `route_node_lookup`. -/
def routeNodeLookup (t : RouteTable α) (k : List Bool) : RouteTable α × Option (List Bool) :=
  (t.lockNode? (lookupFrom t.info k t.top), lookupFrom t.info k t.top)

/-- `route_node_get`: the node of `k` is there and locked. What is new comes from `calloc`. -/
def routeNodeGet (t : RouteTable α) (k : List Bool) : RouteTable α :=
  routeLockNode
    { top := t.top.insert k
      info := fun b => if b ∈ t.top.nodes then t.info b else none
      lock := fun b => if b ∈ t.top.nodes then t.lock b else 0 } k

/-- `route_top`. -/
def routeTop (t : RouteTable α) : RouteTable α × Option (List Bool) :=
  (t.lockNode? t.top.root?, t.top.root?)

/-- `route_next`. -/
def routeNext (t : RouteTable α) (b : List Bool) : Option (RouteTable α × Option (List Bool)) := do
  let next := t.top.next b
  let t ← routeUnlockNode (t.lockNode? next) b
  pure (t, next)

/-- The loop of `route_prev`, which goes from node to node until the next one is `stop`. -/
def routePrevLoop (stop : List Bool) : Nat → RouteTable α → List Bool → Option (RouteTable α × List Bool)
  | 0, _, _ => none
  | n + 1, t, b => do
    let (t, next) ← routeNext t b
    match next with
    | none => pure (t, b)
    | some c =>
      if c = stop then do
        let t ← routeUnlockNode t c
        pure (t, b)
      else routePrevLoop stop n t c

/-- `route_prev`. -/
def routePrev (t : RouteTable α) (b : List Bool) : Option (RouteTable α × Option (List Bool)) :=
  match t.top.parent b with
  | none => do
    let t ← routeUnlockNode t b
    pure (t, none)
  | some p => do
    let (t, prev) ← routePrevLoop b t.top.nodes.length (routeLockNode t p) p
    let t ← routeUnlockNode t b
    pure (routeLockNode t prev, some prev)

/-- The loop over `route_next` to a node with an `info`, as its users have it. -/
def nextInfo : Nat → RouteTable α → List Bool → Option (RouteTable α × Option (List Bool))
  | 0, _, _ => none
  | n + 1, t, b => do
    let (t, next) ← routeNext t b
    match next with
    | none => pure (t, none)
    | some c => if t.info c = none then nextInfo n t c else pure (t, some c)

/-- The loop over `route_prev` to a node with an `info`. -/
def prevInfo : Nat → RouteTable α → List Bool → Option (RouteTable α × Option (List Bool))
  | 0, _, _ => none
  | n + 1, t, b => do
    let (t, prev) ← routePrev t b
    match prev with
    | none => pure (t, none)
    | some c => if t.info c = none then prevInfo n t c else pure (t, some c)

/-- The loop over `route_next` that stays where it is if there is an `info`. -/
def skipToInfo (t : RouteTable α) : Option (List Bool) → Option (RouteTable α × Option (List Bool))
  | none => some (t, none)
  | some b => if t.info b = none then nextInfo t.top.nodes.length t b else some (t, some b)

/-- The walk down to the nodes that go on from a key, as users of the tree begin to iterate over a range: the first
node with an `info` from there on, if it is one of them. -/
def rangeHead (t : RouteTable α) (k : List Bool) : Option (RouteTable α × Option (List Bool)) := do
  let b := (t.top.descend k).root?
  let (t, c) ← skipToInfo (t.lockNode? b) b
  match c with
  | none => pure (t, none)
  | some c => do
    let t ← routeUnlockNode t c
    pure (t, if k <+: c then some c else none)

/-! ### Tables that keep their nodes

A node is held, or it has two branches and nothing hangs on it. Then to lock a node and to unlock it again changes
nothing, and the functions that walk over the tree leave behind the table they found. -/

/-- No node can go that nobody holds. -/
structure Kept (t : RouteTable α) : Prop where
  ordered : t.top.Ordered
  held : ∀ b ∈ t.top.nodes, 0 < t.lock b ∨ (t.info b = none ∧ t.top.Full b)
  bare : ∀ b, b ∉ t.top.nodes → t.info b = none

theorem Kept.init : Kept (routeTableInit : RouteTable α) :=
  ⟨trivial, by simp [routeTableInit], fun _ _ => rfl⟩

section Lock

variable {t : RouteTable α} {b c : List Bool} {i : Option α}

@[simp]
theorem routeLockNode_top : (routeLockNode t b).top = t.top := rfl

@[simp]
theorem routeLockNode_info : (routeLockNode t b).info = t.info := rfl

@[simp]
theorem lockNode?_none : t.lockNode? none = t := rfl

@[simp]
theorem lockNode?_some : t.lockNode? (some b) = routeLockNode t b := rfl

@[simp]
theorem lockNode?_top (o : Option (List Bool)) : (t.lockNode? o).top = t.top := by
  cases o <;> rfl

@[simp]
theorem lockNode?_info (o : Option (List Bool)) : (t.lockNode? o).info = t.info := by
  cases o <;> rfl

theorem routeLockNode_comm : routeLockNode (routeLockNode t b) c = routeLockNode (routeLockNode t c) b := by
  by_cases h : b = c
  · rw [h]
  · simp only [routeLockNode, Function.update_of_ne h, Function.update_of_ne (Ne.symm h)]
    rw [Function.update_comm h]

theorem Kept.lock (h : Kept t) (b : List Bool) : Kept (routeLockNode t b) := by
  refine ⟨h.ordered, fun c hc => ?_, h.bare⟩
  by_cases hcb : c = b
  · subst hcb
    exact .inl (by simp [routeLockNode])
  · simpa [routeLockNode, Function.update_of_ne hcb] using h.held c hc

theorem Kept.lockNode? (h : Kept t) (o : Option (List Bool)) : Kept (t.lockNode? o) := by
  cases o with
  | none => exact h
  | some b => exact h.lock b

/-- What hangs on a node may change as long as somebody holds the node. -/
theorem Kept.setInfo (h : Kept t) (hmem : b ∈ t.top.nodes) (hb : 0 < t.lock b) : Kept (t.setInfo b i) := by
  refine ⟨h.ordered, fun c hc => ?_, fun c hc => ?_⟩
  · by_cases hcb : c = b
    · subst hcb
      exact .inl hb
    · simpa [RouteTable.setInfo, Function.update_of_ne hcb] using h.held c hc
  · have hcb : c ≠ b := fun hcb => hc (hcb ▸ hmem)
    simpa [RouteTable.setInfo, Function.update_of_ne hcb] using h.bare c hc

theorem Kept.mem_of_info (h : Kept t) (hb : t.info b ≠ none) : b ∈ t.top.nodes := by
  by_contra hmem
  exact hb (h.bare b hmem)

theorem Kept.pos_of_info (h : Kept t) (hb : t.info b ≠ none) : 0 < t.lock b := by
  obtain hpos | ⟨hnone, -⟩ := h.held b (h.mem_of_info hb)
  · exact hpos
  · exact absurd hnone hb

/-- A node with two branches and nothing on it stays. -/
theorem routeNodeDelete_full {n : Nat} (ho : t.top.Ordered) (hlock : t.lock b = 0) (hinfo : t.info b = none)
    (hfull : t.top.Full b) : routeNodeDelete (n + 1) t b = some t := by
  obtain ⟨l, r, hsub, hl, hr⟩ := hfull.sub ho
  simp [routeNodeDelete, hlock, hinfo, hsub, hl, hr]

/-- To lock and to unlock changes nothing. -/
theorem Kept.unlock_lock (h : Kept t) (hb : b ∈ t.top.nodes) :
    routeUnlockNode (routeLockNode t b) b = some t := by
  have hback : Function.update t.lock b (t.lock b) = t.lock := Function.update_eq_self b t.lock
  cases hl : t.lock b with
  | zero =>
      rw [hl] at hback
      obtain hpos | ⟨hinfo, hfull⟩ := h.held b hb
      · exact absurd hl (Nat.pos_iff_ne_zero.mp hpos)
      · obtain ⟨n, hn⟩ := Nat.exists_eq_succ_of_ne_zero
          (Nat.pos_iff_ne_zero.mp (List.length_pos_of_mem hb))
        simp only [routeUnlockNode, routeLockNode, hl, Function.update_self, Function.update_idem, hback, hn]
        exact routeNodeDelete_full h.ordered hl hinfo hfull
  | succ n =>
      rw [hl] at hback
      simp only [routeUnlockNode, routeLockNode, hl, Function.update_self, Function.update_idem, hback]

/-- To unlock a node that others hold too. -/
theorem Kept.unlock (h : Kept t) (hb : 1 < t.lock b) :
    ∃ t', routeUnlockNode t b = some t' ∧ Kept t' ∧ t'.top = t.top ∧ t'.info = t.info ∧ 0 < t'.lock b := by
  obtain ⟨n, hn⟩ : ∃ n, t.lock b = n + 2 := ⟨t.lock b - 2, by omega⟩
  refine ⟨{ t with lock := Function.update t.lock b (n + 1) }, by simp only [routeUnlockNode, hn],
    ⟨h.ordered, fun c hc => ?_, h.bare⟩, rfl, rfl, by simp⟩
  by_cases hcb : c = b
  · subst hcb
    exact .inl (by simp)
  · simpa [Function.update_of_ne hcb] using h.held c hc

end Lock

section Walk

variable {t : RouteTable α} {b : List Bool} {xs ys : List (List Bool)}

theorem Kept.routeNext (h : Kept t) (hb : t.top.nodes = xs ++ b :: ys) :
    routeNext (routeLockNode t b) b = some (t.lockNode? ys.head?, ys.head?) := by
  have hmem : b ∈ t.top.nodes := by simp [hb]
  have hnext : (routeLockNode t b).top.next b = ys.head? := Radix.next_eq h.ordered hb
  simp only [Table.routeNext, hnext]
  cases hy : ys.head? with
  | none => simp [h.unlock_lock hmem]
  | some c =>
      simp only [lockNode?_some]
      rw [routeLockNode_comm, (h.lock c).unlock_lock hmem]
      rfl

/-- The loop of `route_prev` stops at the node before. -/
theorem Kept.routePrevLoop (h : Kept t) {p : List Bool} {ms : List (List Bool)} {n : Nat} (hn : ms.length < n)
    (hb : t.top.nodes = xs ++ p :: (ms ++ b :: ys)) :
    routePrevLoop b n (routeLockNode t p) p = some (t, (p :: ms).getLast (by simp)) := by
  induction ms generalizing xs p n with
  | nil =>
      obtain ⟨n, rfl⟩ : ∃ m, n = m + 1 := ⟨n - 1, by omega⟩
      have hmem : b ∈ t.top.nodes := by simp [hb]
      simp [Table.routePrevLoop, h.routeNext hb, RouteTable.lockNode?, h.unlock_lock hmem]
  | cons c ms ih =>
      obtain ⟨n, rfl⟩ : ∃ m, n = m + 1 := ⟨n - 1, by omega⟩
      have hsorted := Radix.nodes_pairwise h.ordered
      have hcb : c ≠ b := by
        rw [hb] at hsorted
        have hlt := (List.pairwise_cons.mp (List.pairwise_append.mp hsorted).2.1).2
        exact ne_of_lt ((List.pairwise_cons.mp hlt).1 b (by simp))
      have hb' : t.top.nodes = (xs ++ [p]) ++ c :: (ms ++ b :: ys) := by simp [hb]
      have hloop := ih (p := c) (n := n) (by simp at hn; omega) hb'
      simp only [Table.routePrevLoop, h.routeNext hb]
      simpa [hcb] using hloop

theorem Kept.routePrev (h : Kept t) (hb : t.top.nodes = xs ++ b :: ys) :
    routePrev (routeLockNode t b) b = some (t.lockNode? xs.getLast?, xs.getLast?) := by
  have hmem : b ∈ t.top.nodes := by simp [hb]
  obtain ⟨rfl, hpar⟩ | ⟨p, hp, hpar⟩ := Radix.parent_mem h.ordered hb
  · simp [Table.routePrev, hpar, h.unlock_lock hmem]
  · obtain ⟨as, ms, rfl⟩ := List.append_of_mem hp
    have hb' : (routeLockNode t b).top.nodes = as ++ p :: (ms ++ b :: ys) := by simp [hb]
    have hlen : ms.length < (routeLockNode t b).top.nodes.length := by simp [hb]; omega
    have hloop := (h.lock b).routePrevLoop hlen hb'
    have hlast : (as ++ p :: ms).getLast? = some ((p :: ms).getLast (by simp)) := by
      rw [List.getLast?_append_of_ne_nil _ (by simp), List.getLast?_eq_some_getLast (by simp)]
    simp only [Table.routePrev, hpar, routeLockNode_top, hlast] at hloop ⊢
    simp [hloop, h.unlock_lock hmem]

/-- The first node with an `info` behind a node. -/
theorem Kept.nextInfo (h : Kept t) {n : Nat} (hn : ys.length < n) (hb : t.top.nodes = xs ++ b :: ys) :
    nextInfo n (routeLockNode t b) b =
      some (t.lockNode? (ys.find? fun c => (t.info c).isSome), ys.find? fun c => (t.info c).isSome) := by
  induction ys generalizing xs b n with
  | nil =>
      obtain ⟨n, rfl⟩ : ∃ m, n = m + 1 := ⟨n - 1, by omega⟩
      simp [Table.nextInfo, h.routeNext hb]
  | cons c ys ih =>
      obtain ⟨n, rfl⟩ : ∃ m, n = m + 1 := ⟨n - 1, by omega⟩
      have hb' : t.top.nodes = (xs ++ [b]) ++ c :: ys := by simp [hb]
      simp only [Table.nextInfo, h.routeNext hb, List.head?_cons, lockNode?_some, Option.bind_eq_bind,
        Option.bind_some, routeLockNode_info]
      by_cases hc : t.info c = none
      · simpa [hc] using ih (n := n) (by simp at hn; omega) hb'
      · simp [hc, Option.isSome_iff_ne_none]

/-- The last node with an `info` before a node. -/
theorem Kept.prevInfo (h : Kept t) {n : Nat} (hn : xs.length < n) (hb : t.top.nodes = xs ++ b :: ys) :
    prevInfo n (routeLockNode t b) b =
      some (t.lockNode? (xs.reverse.find? fun c => (t.info c).isSome),
        xs.reverse.find? fun c => (t.info c).isSome) := by
  induction hxs : xs.reverse generalizing xs b ys n with
  | nil =>
      obtain rfl : xs = [] := List.reverse_eq_nil_iff.mp hxs
      obtain ⟨n, rfl⟩ : ∃ m, n = m + 1 := ⟨n - 1, by omega⟩
      simp [Table.prevInfo, h.routePrev hb]
  | cons c cs ih =>
      obtain rfl : xs = cs.reverse ++ [c] := by
        rw [← List.reverse_reverse xs, hxs, List.reverse_cons]
      obtain ⟨n, rfl⟩ : ∃ m, n = m + 1 := ⟨n - 1, by omega⟩
      have hb' : t.top.nodes = cs.reverse ++ c :: (b :: ys) := by simp [hb]
      simp only [Table.prevInfo, h.routePrev hb, List.getLast?_concat, lockNode?_some, Option.bind_eq_bind,
        Option.bind_some, routeLockNode_info]
      by_cases hc : t.info c = none
      · simpa [hc] using ih (n := n) (by simp at hn; simp; omega) hb' (by simp)
      · simp [hc, Option.isSome_iff_ne_none]

/-- The first node with an `info` from a node on. -/
theorem Kept.skipToInfo (h : Kept t) (hb : t.top.nodes = xs ++ b :: ys) :
    skipToInfo (routeLockNode t b) (some b) =
      some (t.lockNode? ((b :: ys).find? fun c => (t.info c).isSome),
        (b :: ys).find? fun c => (t.info c).isSome) := by
  cases hi : t.info b with
  | none =>
      have hlen : ys.length < (routeLockNode t b).top.nodes.length := by simp [hb]; omega
      simpa [Table.skipToInfo, hi] using h.nextInfo hlen hb
  | some i => simp [Table.skipToInfo, hi]

end Walk

theorem lookupFrom_eq {info : List Bool → Option α} {k : List Bool} {t : Radix} (ho : t.Ordered) :
    lookupFrom info k t = if k ∈ t.nodes ∧ (info k).isSome then some k else none := by
  induction t with
  | nil => simp [lookupFrom]
  | node p l r ihl ihr =>
      simp only [lookupFrom, ihl ho.2.2.1, ihr ho.2.2.2, Radix.mem_node]
      by_cases hp : p <+: k
      · by_cases hlen : p.length = k.length
        · obtain rfl : p = k := hp.eq_of_length hlen
          have hl : p ∉ l.nodes := fun h => (Radix.ne_of_mem_left ho h).1 rfl
          have hr : p ∉ r.nodes := fun h => (Radix.ne_of_mem_right ho h).1 rfl
          by_cases hi : (info p).isSome <;> simp [hi, hl, hr]
        · have hne : k ≠ p := fun h => hlen (h ▸ rfl)
          cases hbit : bitAt k p.length with
          | false =>
              have hr : k ∉ r.nodes := fun h => by simp [(Radix.ne_of_mem_right ho h).2] at hbit
              simp [hp, hlen, hne, hr]
          | true =>
              have hl : k ∉ l.nodes := fun h => by simp [(Radix.ne_of_mem_left ho h).2] at hbit
              simp [hp, hlen, hne, hl]
      · have hk : ¬ (k = p ∨ k ∈ l.nodes ∨ k ∈ r.nodes) := by
          intro hk
          exact hp (ho.prefix_of_root List.prefix_rfl k (Radix.mem_node.mpr hk))
        simp [hp, hk]

/-- The nodes with something on them, in the order of the tree. -/
def stored (t : RouteTable α) : List (List Bool) :=
  t.top.nodes.filter fun b => (t.info b).isSome

section Stored

variable {t : RouteTable α} {k : List Bool} {i : Option α}

theorem Kept.mem_stored (h : Kept t) {b : List Bool} : b ∈ stored t ↔ t.info b ≠ none := by
  rw [stored, List.mem_filter, Option.isSome_iff_ne_none]
  exact ⟨fun hb => hb.2, fun hb => ⟨h.mem_of_info hb, hb⟩⟩

theorem Kept.stored_pairwise (h : Kept t) : (stored t).Pairwise (· < ·) :=
  (Radix.nodes_pairwise h.ordered).filter _

theorem Kept.routeNodeLookup (h : Kept t) :
    routeNodeLookup t k = if t.info k = none then (t, none) else (routeLockNode t k, some k) := by
  have hlook : lookupFrom t.info k t.top = if k ∈ t.top.nodes ∧ (t.info k).isSome then some k else none :=
    lookupFrom_eq h.ordered
  by_cases hk : t.info k = none
  · simp [Table.routeNodeLookup, hlook, hk]
  · have hmem := h.mem_of_info hk
    simp [Table.routeNodeLookup, hlook, hk, hmem, Option.isSome_iff_ne_none]

theorem Kept.routeNodeGet_info (h : Kept t) : (routeNodeGet t k).info = t.info := by
  funext b
  by_cases hb : b ∈ t.top.nodes
  · simp [routeNodeGet, hb]
  · simp [routeNodeGet, hb, h.bare b hb]

theorem routeNodeGet_mem : k ∈ (routeNodeGet t k).top.nodes :=
  Radix.mem_insert_self k t.top

theorem routeNodeGet_lock_pos : 0 < (routeNodeGet t k).lock k := by
  simp [routeNodeGet, routeLockNode]

theorem Kept.routeNodeGet (h : Kept t) (k : List Bool) : Kept (routeNodeGet t k) := by
  refine ⟨Radix.ordered_insert h.ordered, fun b hb => ?_, fun b hb => ?_⟩
  · by_cases hbk : b = k
    · subst hbk
      exact .inl routeNodeGet_lock_pos
    · rw [h.routeNodeGet_info]
      obtain hold | hk | hfull := Radix.mem_insert hb
      · have hlock : (Table.routeNodeGet t k).lock b = t.lock b := by
          simp [Table.routeNodeGet, routeLockNode, Function.update_of_ne hbk, hold]
        rw [hlock]
        exact (h.held b hold).imp_right fun hb => ⟨hb.1, Radix.full_insert hb.2⟩
      · exact absurd hk hbk
      · by_cases hold : b ∈ t.top.nodes
        · have hlock : (Table.routeNodeGet t k).lock b = t.lock b := by
            simp [Table.routeNodeGet, routeLockNode, Function.update_of_ne hbk, hold]
          rw [hlock]
          exact (h.held b hold).imp_right fun hb => ⟨hb.1, hfull⟩
        · exact .inr ⟨h.bare b hold, hfull⟩
  · rw [h.routeNodeGet_info]
    exact h.bare b fun hold => hb (Radix.mem_insert_of_mem hold)

/-- The nodes with something on them depend on what hangs on the nodes only. -/
theorem stored_congr {t t' : RouteTable α} (h : Kept t) (h' : Kept t') (hinfo : t'.info = t.info) :
    stored t' = stored t := by
  refine h'.stored_pairwise.eq_of_mem_iff h.stored_pairwise fun b => ?_
  rw [h'.mem_stored, h.mem_stored, hinfo]

/-- The stored nodes before and behind a node. -/
theorem stored_split {b : List Bool} {xs ys : List (List Bool)} (hb : t.top.nodes = xs ++ b :: ys) :
    stored t = (xs.filter fun c => (t.info c).isSome) ++
      ((if (t.info b).isSome then [b] else []) ++ ys.filter fun c => (t.info c).isSome) := by
  rw [stored, hb, List.filter_append, List.filter_cons]
  split <;> simp

/-- What is put on a node is stored between what is before and what is behind it. -/
theorem Kept.stored_setInfo (h : Kept t) {b : List Bool} {xs ys : List (List Bool)}
    (hb : t.top.nodes = xs ++ b :: ys) :
    (xs.filter fun c => ((t.setInfo b i).info c).isSome) = (xs.filter fun c => (t.info c).isSome) ∧
    (ys.filter fun c => ((t.setInfo b i).info c).isSome) = ys.filter fun c => (t.info c).isSome := by
  have hsorted := Radix.nodes_pairwise h.ordered
  rw [hb, List.pairwise_append, List.pairwise_cons] at hsorted
  obtain ⟨-, ⟨hby, -⟩, hxb⟩ := hsorted
  constructor
  · refine List.filter_congr fun c hc => ?_
    have hne : c ≠ b := ne_of_lt (hxb c hc b (by simp))
    simp [RouteTable.setInfo, Function.update_of_ne hne]
  · refine List.filter_congr fun c hc => ?_
    have hne : c ≠ b := ne_of_gt (hby c hc)
    simp [RouteTable.setInfo, Function.update_of_ne hne]

/-- In an ascending list whose first element goes on from `k`, those that do come first. -/
theorem head?_filter_range {k b : List Bool} {zs : List (List Bool)} (hb : k <+: b)
    (hzs : zs.Pairwise (· < ·)) (hle : ∀ z ∈ zs, b = z ∨ b < z) :
    (zs.filter fun z => k <+: z).head? = zs.head?.filter fun z => k <+: z := by
  cases zs with
  | nil => rfl
  | cons z zs =>
      by_cases hz : k <+: z
      · simp [hz, Option.filter]
      · have hbz : b < z := by
          obtain rfl | h := hle z (by simp)
          · exact absurd hb hz
          · exact h
        have hnone : zs.filter (fun z => k <+: z) = [] := by
          rw [List.filter_eq_nil_iff]
          intro w hw hkw
          have hzw := (List.pairwise_cons.mp hzs).1 w hw
          exact hz (prefix_of_lt_of_lt hb (of_decide_eq_true hkw) hbz hzw)
        simp [hz, hnone, Option.filter]

/-- A range begins at its first stored node. -/
theorem Kept.rangeHead (h : Kept t) (hk : k ∈ t.top.nodes → t.top.Full k) (hinfo : t.info k = none) :
    rangeHead t k = some (t, ((stored t).filter fun b => k <+: b).head?) := by
  obtain ⟨hroot, hno⟩ | ⟨b, xs, ys, hroot, hb, hxs, hkb⟩ := Radix.descend_spec h.ordered hk
  · have hnone : (stored t).filter (fun b => k <+: b) = [] := by
      rw [List.filter_eq_nil_iff]
      intro q hq hkq
      exact hno q (List.mem_of_mem_filter hq) (of_decide_eq_true hkq)
    simp [Table.rangeHead, hroot, Table.skipToInfo, hnone]
  · have hskip := h.skipToInfo hb
    have hstored : (stored t).filter (fun b => k <+: b) =
        ((b :: ys).filter fun c => (t.info c).isSome).filter fun b => k <+: b := by
      have hnone : (xs.filter fun c => (t.info c).isSome).filter (fun b => k <+: b) = [] := by
        rw [List.filter_eq_nil_iff]
        intro q hq hkq
        obtain ⟨hq, hiq⟩ := List.mem_filter.mp hq
        rw [hxs q hq (of_decide_eq_true hkq), hinfo] at hiq
        exact absurd hiq (by simp)
      rw [stored, hb, List.filter_append, List.filter_append, hnone, List.nil_append]
    have hsorted : (b :: ys).Pairwise (· < ·) := by
      have hall := Radix.nodes_pairwise h.ordered
      rw [hb] at hall
      exact (List.pairwise_append.mp hall).2.1
    have hhead : ((stored t).filter fun b => k <+: b).head? =
        ((b :: ys).find? fun c => (t.info c).isSome).filter fun c => k <+: c := by
      rw [hstored, ← List.head?_filter]
      obtain hkb | hno := hkb
      · refine head?_filter_range hkb (hsorted.filter _) fun z hz => ?_
        obtain hz | hz := List.mem_cons.mp (List.mem_of_mem_filter hz)
        · exact .inl hz.symm
        · exact .inr ((List.pairwise_cons.mp hsorted).1 z hz)
      · have hnone : ∀ z ∈ (b :: ys).filter fun c => (t.info c).isSome, ¬ k <+: z := fun z hz =>
          hno z (hb ▸ List.mem_append_right xs (List.mem_of_mem_filter hz))
        rw [List.filter_eq_nil_iff.mpr (by simpa using hnone)]
        cases hz : (b :: ys).filter fun c => (t.info c).isSome with
        | nil => rfl
        | cons z zs =>
            have hkz := hnone z (by rw [hz]; simp)
            simp [hkz, Option.filter]
    simp only [Table.rangeHead, hroot, lockNode?_some, hskip, Option.bind_eq_bind, Option.bind_some]
    rw [hhead]
    cases hc : (b :: ys).find? fun c => (t.info c).isSome with
    | none => rfl
    | some c =>
        have hmem : c ∈ t.top.nodes := hb ▸ List.mem_append_right xs (List.mem_of_find?_eq_some hc)
        simp only [lockNode?_some, h.unlock_lock hmem]
        by_cases hkc : k <+: c <;> simp [hkc, Option.filter]

end Stored

end Harry.Table
