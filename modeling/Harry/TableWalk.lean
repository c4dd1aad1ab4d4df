import Harry.TableGet

/-! The walks over a table in memory. `route_next` climbs by the parent pointers to the next node in the order of the
prefixes (`Refines.nextNode`); a walk leaves behind the memory that it found, as long as its own lock is on the node
that it has come to. `route_prev` unlocks that node before it locks the one it returns. -/

namespace Harry.Base.Radix

/-- What the way back up from `b` leads to: the next branch on the right, or `up`. -/
def upFrom (b : List Bool) (up : Option (List Bool)) : Radix → Option (List Bool)
  | nil => up
  | node p l r =>
    if p = b then up else if bitAt b p.length then r.upFrom b up else l.upFrom b (r.root?.or up)

section Up

variable {t l r : Radix} {b q : List Bool} {up : Option (List Bool)}

theorem nextFrom_sub (hsub : t.sub b = node b l r) (up : Option (List Bool)) :
    t.nextFrom b up = (l.root?.or r.root?).or (t.upFrom b up) := by
  induction t generalizing up with
  | nil => cases hsub
  | node p l' r' ihl ihr =>
      simp only [Radix.sub] at hsub
      simp only [nextFrom, upFrom]
      split_ifs at hsub ⊢ with hp hbit
      · obtain ⟨-, rfl, rfl⟩ := node.inj hsub
        rfl
      · exact ihr hsub up
      · exact ihl hsub _

theorem upFrom_root (hroot : t.root? = some b) : t.upFrom b up = up := by
  cases t with
  | nil => rfl
  | node p l r =>
      obtain rfl : p = b := by simpa [root?] using hroot
      simp [upFrom]

/-- The way back up from a node leads over its parent. -/
theorem upFrom_parent (ho : t.Ordered) (hb : b ∈ t.nodes) (hpar : t.parent b = some q) (hsub : t.sub q = node q l r)
    (up : Option (List Bool)) :
    t.upFrom b up = if l.root? = some b ∧ r ≠ nil then r.root? else t.upFrom q up := by
  induction t generalizing up with
  | nil => simp at hb
  | node p l' r' ihl ihr =>
      obtain rfl | hbl | hbr := mem_node.mp hb
      · rw [parent_root] at hpar
        cases hpar
      · obtain ⟨hne, hbit⟩ := ne_of_mem_left ho hbl
        simp only [parent, hne, hbit, if_false, Bool.false_eq_true] at hpar
        simp only [upFrom, hne, hbit, if_false, Bool.false_eq_true]
        split_ifs at hpar with hroot
        · obtain rfl := Option.some.inj hpar
          obtain ⟨-, rfl, rfl⟩ : p = p ∧ l' = l ∧ r' = r := by simpa [Radix.sub] using hsub
          rw [upFrom_root hroot]
          cases r' with
          | nil => simp [root?]
          | node x lx rx =>
              rw [if_pos ⟨hroot, by simp⟩]
              rfl
        · obtain ⟨hq, -⟩ := mem_of_parent ho.2.2.1 hbl hpar
          obtain ⟨hqne, hqbit⟩ := ne_of_mem_left ho hq
          rw [sub_of_mem_left ho hq] at hsub
          rw [ihl ho.2.2.1 hbl hpar hsub]
          simp [hqne, hqbit]
      · obtain ⟨hne, hbit⟩ := ne_of_mem_right ho hbr
        simp only [parent, hne, hbit, if_false, if_true] at hpar
        simp only [upFrom, hne, hbit, if_false, if_true]
        split_ifs at hpar with hroot
        · obtain rfl := Option.some.inj hpar
          obtain ⟨-, rfl, rfl⟩ : p = p ∧ l' = l ∧ r' = r := by simpa [Radix.sub] using hsub
          have hl : l'.root? ≠ some b := by
            intro hl
            rw [← head?_nodes] at hl
            exact not_both (ho.1 b (List.mem_of_mem_head? hl)) (ho.2.1 b hbr)
          rw [upFrom_root hroot, if_neg fun h => hl h.1]
          simp
        · obtain ⟨hq, -⟩ := mem_of_parent ho.2.2.2 hbr hpar
          obtain ⟨hqne, hqbit⟩ := ne_of_mem_right ho hq
          rw [sub_of_mem_right ho hq] at hsub
          rw [ihr ho.2.2.2 hbr hpar hsub]
          simp [hqne, hqbit]

theorem upFrom_of_parent_none (ho : t.Ordered) (hb : b ∈ t.nodes) (hpar : t.parent b = none) : t.upFrom b up = up := by
  obtain ⟨xs, ys, hnodes⟩ := List.append_of_mem hb
  obtain ⟨rfl, -⟩ | ⟨p, -, hp⟩ := parent_mem ho hnodes
  · refine upFrom_root ?_
    rw [← head?_nodes, hnodes]
    rfl
  · rw [hp] at hpar
    cases hpar

end Up

end Harry.Base.Radix

namespace Harry.Table

open Harry.Base Harry.Base.Radix

variable {α : Type} {f : Family} {h h' : Heap α} {L : Layout} {t t' : RouteTable α} {b q : List Bool}
  {xs ys ms : List (List Bool)}

theorem root_eq_none {s : Radix} : L.root s = none ↔ s = .nil := by
  cases s <;> simp [Layout.root, root?]

/-- The loop of `route_next`. -/
theorem Refines.climb (hr : Refines f h L t) (ho : t.top.Ordered) (hb : t.top.nodes = xs ++ b :: ys) {n : Nat}
    (hn : xs.length < n) : h.climb n (L.addr b) = some ((t.top.upFrom b none).map L.addr) := by
  induction n generalizing b xs ys with
  | zero => omega
  | succ n ih =>
      have hbt : b ∈ t.top.nodes := by simp [hb]
      obtain ⟨nb, hnb, -, -, -, hpar⟩ := hr.exists_node ho hbt
      rw [Heap.climb, hnb]
      simp only [Option.bind_eq_bind, Option.bind_some, hpar]
      obtain ⟨-, hnone⟩ | ⟨q, hq, hsome⟩ := parent_mem ho hb
      · rw [hnone, upFrom_of_parent_none ho hbt hnone]
        rfl
      · obtain ⟨as, ms, rfl⟩ := List.append_of_mem hq
        have hqt : q ∈ t.top.nodes := by simp [hb]
        obtain ⟨l, r, hsub⟩ := exists_sub ho hqt
        have hb' : t.top.nodes = as ++ q :: (ms ++ b :: ys) := by simp [hb]
        have hloop := ih hb' (by simp at hn; omega)
        have hleft : L.root l = some (L.addr b) ↔ l.root? = some b := by
          constructor
          · intro hroot
            obtain ⟨x, hx, hxb⟩ := Option.map_eq_some_iff.mp hroot
            have hxt : x ∈ t.top.nodes := by
              refine mem_of_mem_sub (b := q) ?_
              rw [hsub, mem_node]
              rw [← head?_nodes] at hx
              exact .inr (.inl (List.mem_of_mem_head? hx))
            rw [hx, hr.addr_inj x hxt b hbt hxb]
          · intro hroot
            rw [Layout.root, hroot]
            rfl
        rw [hsome, upFrom_parent ho hbt hsome hsub]
        simp only [Option.map_some, hr.node ho hsub, Option.bind_some, ne_eq, root_eq_none, hleft]
        split_ifs
        · rfl
        · exact hloop

/-- The node that `route_next` goes on to. -/
theorem Refines.nextNode (hr : Refines f h L t) (ho : t.top.Ordered) (hb : b ∈ t.top.nodes) :
    h.nextNode (L.addr b) = some ((t.top.next b).map L.addr) := by
  obtain ⟨l, r, hsub⟩ := exists_sub ho hb
  obtain ⟨xs, ys, hnodes⟩ := List.append_of_mem hb
  have hclimb := hr.climb ho hnodes (n := h.size) (by rw [hr.size, hnodes]; simp)
  rw [Heap.nextNode, hr.node ho hsub, Radix.next, nextFrom_sub hsub]
  simp only [Option.bind_eq_bind, Option.bind_some, ne_eq, root_eq_none]
  cases l with
  | node x lx rx => rfl
  | nil =>
      cases r with
      | node x lx rx => rfl
      | nil => exact hclimb

/-- To lock a node in memory and to unlock it again. -/
theorem Refines.unlock_lock (hr : Refines f h L t) (hk : Kept t) (hb : b ∈ t.top.nodes)
    (hlock : h.routeLockNode (L.addr b) = some h') : h'.routeUnlockNode (L.addr b) = some h := by
  obtain ⟨g, hg, hrg⟩ := hr.lock hk.ordered hb
  obtain rfl := Option.some.inj (hlock.symm.trans hg)
  have hinfo : (routeLockNode t b).lock b = 1 → (routeLockNode t b).info b = none := by
    intro hone
    obtain hpos | ⟨hnone, -⟩ := hk.held b hb
    · simp [routeLockNode] at hone
      omega
    · exact hnone
  obtain ⟨g', hg', hrg'⟩ := hrg.unlock (hk.lock b) hb hinfo (hk.unlock_lock hb)
  rw [hg', hrg'.heap_eq hr hk.ordered]

/-- A walk goes from a node that it has locked to the next one. -/
theorem Refines.next (hr : Refines f h L t) (hk : Kept t) (hb : t.top.nodes = xs ++ b :: ys)
    (hlock : h.routeLockNode (L.addr b) = some h') :
    ∃ g, h.lockNode? (ys.head?.map L.addr) = some g ∧ h'.routeNext (L.addr b) = some (g, ys.head?.map L.addr) := by
  have hbt : b ∈ t.top.nodes := by simp [hb]
  have hys : ∀ c ∈ ys.head?, c ∈ t.top.nodes := by
    intro c hc
    have hmem := List.mem_of_mem_head? hc
    simp [hb, hmem]
  obtain ⟨g₁, hg₁, hr₁⟩ := hr.lock hk.ordered hbt
  obtain rfl := Option.some.inj (hlock.symm.trans hg₁)
  have hnext := hr₁.nextNode hk.ordered hbt
  rw [show (routeLockNode t b).top.next b = ys.head? from next_eq hk.ordered hb] at hnext
  obtain ⟨g, hg, hrg⟩ := hr.lockNode? hk.ordered hys
  obtain ⟨g₂, hg₂, hr₂⟩ := hr₁.lockNode? hk.ordered hys
  obtain ⟨g₃, hg₃, hr₃⟩ := hrg.lock (by simpa using hk.ordered) (by simpa using hbt)
  have hcomm : (routeLockNode t b).lockNode? ys.head? = routeLockNode (t.lockNode? ys.head?) b := by
    cases ys.head? with
    | none => rfl
    | some c => exact routeLockNode_comm
  rw [hcomm] at hr₂
  have hsame := hr₂.heap_eq hr₃ (by simpa using hk.ordered)
  have hunlock := hrg.unlock_lock (hk.lockNode? _) (by simpa using hbt) hg₃
  exact ⟨g, hg, by simp [Heap.routeNext, hnext, hg₂, hsame, hunlock]⟩

/-- The loop of `route_prev` stops at the node before. -/
theorem Refines.prevLoop (hr : Refines f h L t) (hk : Kept t) {p : List Bool} {n : Nat} (hn : ms.length < n)
    (hb : t.top.nodes = xs ++ p :: (ms ++ b :: ys)) (hlock : h.routeLockNode (L.addr p) = some h') :
    Heap.prevLoop (L.addr b) n h' (L.addr p) = some (h, L.addr ((p :: ms).getLast (by simp))) := by
  have hbt : b ∈ t.top.nodes := by simp [hb]
  induction ms generalizing xs p n h' with
  | nil =>
      obtain ⟨n, rfl⟩ : ∃ m, n = m + 1 := ⟨n - 1, by omega⟩
      obtain ⟨g, hg, hnext⟩ := hr.next hk hb hlock
      have hunlock := hr.unlock_lock hk hbt hg
      simp [Heap.prevLoop, hnext, hunlock]
  | cons c ms ih =>
      obtain ⟨n, rfl⟩ : ∃ m, n = m + 1 := ⟨n - 1, by omega⟩
      have hct : c ∈ t.top.nodes := by simp [hb]
      have hsorted := nodes_pairwise hk.ordered
      have hcb : L.addr c ≠ L.addr b := by
        rw [hb] at hsorted
        have hlt := (List.pairwise_cons.mp (List.pairwise_append.mp hsorted).2.1).2
        intro heq
        exact ne_of_lt ((List.pairwise_cons.mp hlt).1 b (by simp)) (hr.addr_inj c hct b hbt heq)
      obtain ⟨g, hg, hnext⟩ := hr.next hk hb hlock
      have hb' : t.top.nodes = (xs ++ [p]) ++ c :: (ms ++ b :: ys) := by simp [hb]
      have hloop := ih (by simpa using hn) hb' hg
      simp [Heap.prevLoop, hnext, hcb, hloop]

/-- The order of the steps of `route_prev`: it unlocks the node and then locks the one before. -/
theorem Refines.prev (hr : Refines f h L t) (hk : Kept t) (hb : t.top.nodes = xs ++ b :: ys) :
    h.routePrev (L.addr b) = (do
      let h ← h.routeUnlockNode (L.addr b)
      let h ← h.lockNode? (xs.getLast?.map L.addr)
      pure (h, xs.getLast?.map L.addr)) := by
  have hbt : b ∈ t.top.nodes := by simp [hb]
  obtain ⟨nb, hnb, -, -, -, hpar⟩ := hr.exists_node hk.ordered hbt
  rw [Heap.routePrev, hnb]
  simp only [Option.bind_eq_bind, Option.bind_some, hpar]
  obtain ⟨rfl, hnone⟩ | ⟨p, hp, hsome⟩ := parent_mem hk.ordered hb
  · rw [hnone]
    rfl
  · obtain ⟨as, ms, rfl⟩ := List.append_of_mem hp
    have hpt : p ∈ t.top.nodes := by simp [hb]
    obtain ⟨g, hg, hrg⟩ := hr.lock hk.ordered hpt
    have hlen : ms.length < g.size := by
      rw [hrg.size]
      simp [hb]
      omega
    have hb' : t.top.nodes = as ++ p :: (ms ++ b :: ys) := by simp [hb]
    have hloop := hr.prevLoop hk hlen hb' hg
    have hlast : (as ++ p :: ms).getLast? = some ((p :: ms).getLast (by simp)) := by
      rw [List.getLast?_append_of_ne_nil _ (by simp), List.getLast?_eq_some_getLast (by simp)]
    rw [hsome, hlast]
    simp [hg, hloop, Heap.lockNode?]

/-- The loop over all nodes, from one that it has locked on. -/
theorem Refines.visitFrom (hr : Refines f h L t) (hk : Kept t) (hb : t.top.nodes = xs ++ ys) {n : Nat}
    (hn : ys.length ≤ n) (hlock : h.lockNode? (ys.head?.map L.addr) = some h') :
    Heap.visitFrom n h' (ys.head?.map L.addr) = some (h, ys.map L.addr) := by
  induction ys generalizing xs n h' with
  | nil =>
      obtain rfl := Option.some.inj hlock
      cases n <;> rfl
  | cons b ys ih =>
      obtain ⟨n, rfl⟩ : ∃ m, n = m + 1 := ⟨n - 1, by simp at hn; omega⟩
      obtain ⟨g, hg, hnext⟩ := hr.next hk hb hlock
      have hb' : t.top.nodes = (xs ++ [b]) ++ ys := by simp [hb]
      have hloop := ih hb' (by simpa using hn) hg
      simp only [List.head?_cons, Option.map_some, List.map_cons, Heap.visitFrom, hnext, Option.bind_eq_bind,
        Option.bind_some, hloop]
      rfl

/-- The loop over all nodes comes to each of them once, in the order of the prefixes. -/
theorem Refines.visit (hr : Refines f h L t) (hk : Kept t) : h.visit = some (h, t.top.nodes.map L.addr) := by
  have htop : h.top = t.top.nodes.head?.map L.addr := by
    rw [hr.top, head?_nodes]
    rfl
  obtain ⟨g, hg, hrg⟩ := hr.lockNode? hk.ordered (o := t.top.nodes.head?) fun b hb => List.mem_of_mem_head? hb
  have hsize : t.top.nodes.length ≤ g.size := by
    rw [hrg.size]
    simp
  have hloop := hr.visitFrom hk (List.nil_append _).symm hsize hg
  simp [Heap.visit, Heap.routeTop, htop, hg, hloop]

/-! ### Lookups -/

section Lookup

variable {s l r : Radix} {lock : List Bool → Nat} {info : List Bool → Option α} {par matched : Option Addr}
  {p n : Prefix} {c : List Bool} {fuel : Nat}

/-- In the branch that a walk does not take there is no prefix of the one it looks for. -/
theorem walk_side (ho : (Radix.node c l r).Ordered) (hn : n.key = c) :
    ∀ q ∈ (if prefixBit p.u n.prefixlen then l else r).nodes, ¬ q <+: p.key := by
  intro q hq hqk
  cases hbit : prefixBit p.u n.prefixlen with
  | true =>
      rw [hbit] at hq
      have hstart := (ho.1 q hq).trans hqk
      rw [← hn] at hstart
      exact absurd (hbit.symm.trans (prefixBit_of_start hstart)) (by decide)
  | false =>
      rw [hbit] at hq
      have hstart := (ho.2.1 q hq).trans hqk
      rw [← hn] at hstart
      exact absurd (hbit.symm.trans (prefixBit_of_start hstart)) (by decide)

/-- The walk of `route_node_lookup`. -/
theorem Rep.lookupFrom (hrep : Rep h.node L lock info par s) (ho : s.Ordered)
    (hkey : ∀ q ∈ s.nodes, (L.pre q).key = q) (hfuel : s.nodes.length ≤ fuel) :
    h.lookupFrom p fuel (L.root s) =
      some (if p.key ∈ s.nodes ∧ (info p.key).isSome then some (L.addr p.key) else none) := by
  induction s generalizing par fuel with
  | nil => cases fuel <;> simp [Heap.lookupFrom, Layout.root, root?]
  | node c l r ihl ihr =>
      cases fuel with
      | zero => simp [nodes] at hfuel
      | succ fuel =>
          have hc : (L.pre c).key = c := hkey c (by simp [nodes])
          have hclen : (L.pre c).prefixlen = c.length := by rw [← (L.pre c).length_key, hc]
          have hlens : l.nodes.length ≤ fuel ∧ r.nodes.length ≤ fuel := by
            simp only [nodes_node, List.length_cons, List.length_append] at hfuel
            omega
          have hroot : L.root (.node c l r) = some (L.addr c) := rfl
          rw [hroot, Heap.lookupFrom, hrep.1]
          simp only [Option.bind_eq_bind, Option.bind_some, walk_iff, hc]
          by_cases hp : c <+: p.key
          · rw [if_pos hp]
            by_cases hhit : (L.pre c).prefixlen = p.prefixlen ∧ info c ≠ none
            · obtain rfl : c = p.key := hp.eq_of_length (by rw [← hclen, hhit.1, p.length_key])
              rw [if_pos hhit, if_pos ⟨by simp [nodes], Option.isSome_iff_ne_none.mpr hhit.2⟩]
              rfl
            · rw [if_neg hhit]
              have hside := walk_side (p := p) ho hc
              have hmiss : ¬ (p.key = c ∧ (info p.key).isSome) := by
                rintro ⟨heq, hsome⟩
                rw [heq] at hsome
                exact hhit ⟨by rw [hclen, ← heq, p.length_key], Option.isSome_iff_ne_none.mp hsome⟩
              cases hbit : prefixBit p.u (L.pre c).prefixlen with
              | false =>
                  rw [hbit] at hside
                  have hnot : p.key ∉ r.nodes := fun h => hside _ h List.prefix_rfl
                  have hnode : (p.key ∈ (Radix.node c l r).nodes ∧ (info p.key).isSome) ↔
                      p.key ∈ l.nodes ∧ (info p.key).isSome := by
                    rw [mem_node]
                    tauto
                  simp only [hnode]
                  exact ihl hrep.2.1 ho.2.2.1 (fun q hq => hkey q (by simp [mem_node, hq])) hlens.1
              | true =>
                  rw [hbit] at hside
                  have hnot : p.key ∉ l.nodes := fun h => hside _ h List.prefix_rfl
                  have hnode : (p.key ∈ (Radix.node c l r).nodes ∧ (info p.key).isSome) ↔
                      p.key ∈ r.nodes ∧ (info p.key).isSome := by
                    rw [mem_node]
                    tauto
                  simp only [hnode]
                  exact ihr hrep.2.2 ho.2.2.2 (fun q hq => hkey q (by simp [mem_node, hq])) hlens.2
          · rw [if_neg hp, if_neg fun h => hp (ho.prefix_of_root List.prefix_rfl _ h.1)]
            rfl

/-- The walk of `route_node_match`: the last node on the way that has an `info`. -/
theorem Rep.matchFrom (hrep : Rep h.node L lock info par s) (ho : s.Ordered)
    (hkey : ∀ q ∈ s.nodes, (L.pre q).key = q) (hfuel : s.nodes.length ≤ fuel) (matched : Option Addr) :
    h.matchFrom p fuel (L.root s) matched =
      some (((s.nodes.filter fun q => q <+: p.key ∧ (info q).isSome).getLast?.map L.addr).or matched) := by
  induction s generalizing par fuel matched with
  | nil => cases fuel <;> simp [Heap.matchFrom, Layout.root, root?]
  | node c l r ihl ihr =>
      cases fuel with
      | zero => simp [nodes] at hfuel
      | succ fuel =>
          have hc : (L.pre c).key = c := hkey c (by simp [nodes])
          have hlens : l.nodes.length ≤ fuel ∧ r.nodes.length ≤ fuel := by
            simp only [nodes_node, List.length_cons, List.length_append] at hfuel
            omega
          have hroot : L.root (.node c l r) = some (L.addr c) := rfl
          rw [hroot, Heap.matchFrom, hrep.1]
          simp only [Option.bind_eq_bind, Option.bind_some, walk_iff, hc]
          by_cases hp : c <+: p.key
          · rw [if_pos hp]
            have hside := walk_side (p := p) ho hc
            have hempty : ∀ xs : List (List Bool), (∀ q ∈ xs, ¬ q <+: p.key) →
                (xs.filter fun q => q <+: p.key ∧ (info q).isSome) = [] := by
              intro xs hxs
              rw [List.filter_eq_nil_iff]
              intro q hq hmatch
              exact hxs q hq (of_decide_eq_true hmatch).1
            -- what the walk finds further down, else the node itself
            have hjoin : ∀ ys : List (List Bool), (ys.getLast?.map L.addr).or
                  (if info c ≠ none then some (L.addr c) else matched) =
                (((if info c ≠ none then [c] else []) ++ ys).getLast?.map L.addr).or matched := by
              intro ys
              rw [List.getLast?_append]
              cases ys.getLast? with
              | some y => rfl
              | none => split_ifs <;> rfl
            have hself : ([c].filter fun q => q <+: p.key ∧ (info q).isSome) = if info c ≠ none then [c] else [] := by
              by_cases hi : info c = none
              · simp [hi]
              · simp [hi, hp, Option.isSome_iff_ne_none]
            have hsplit : (Radix.node c l r).nodes = [c] ++ (l.nodes ++ r.nodes) := rfl
            rw [hsplit, List.filter_append, hself, List.filter_append]
            cases hbit : prefixBit p.u (L.pre c).prefixlen with
            | false =>
                rw [hbit] at hside
                rw [hempty r.nodes hside, List.append_nil, ← hjoin]
                exact ihl hrep.2.1 ho.2.2.1 (fun q hq => hkey q (by simp [mem_node, hq])) hlens.1 _
            | true =>
                rw [hbit] at hside
                rw [hempty l.nodes hside, List.nil_append, ← hjoin]
                exact ihr hrep.2.2 ho.2.2.2 (fun q hq => hkey q (by simp [mem_node, hq])) hlens.2 _
          · rw [if_neg hp]
            have hnone : ((Radix.node c l r).nodes.filter fun q => q <+: p.key ∧ (info q).isSome) = [] := by
              rw [List.filter_eq_nil_iff]
              intro q hq hmatch
              exact hp ((ho.prefix_of_root List.prefix_rfl q hq).trans (of_decide_eq_true hmatch).1)
            rw [hnone]
            rfl

end Lookup

end Harry.Table
