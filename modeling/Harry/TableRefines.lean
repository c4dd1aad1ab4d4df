import Harry.TableHeap
import Harry.TableUnlock

/-! The nodes in memory as a tree of prefixes. A layout gives to each prefix the address of its node and the bytes that
the node has; then the memory is determined by the layout and the table (`Refines.heap_eq`). What a function of
`lib/table.c` changes is one subtree, the link that leads to it and fields of single nodes; `Replaces` says which
subtree, and `Rep.replaces` carries the representation over. -/

namespace Harry.Base.Radix

/-- A node and the side of it on which something hangs. -/
abbrev Hook := Option (List Bool × Bool)

/-- The second tree is the first one with the subtree `s` replaced by `s'`. The subtree hangs on `m`, and the whole tree
on `above`. -/
inductive Replaces (m : Hook) (s s' : Radix) : Hook → Radix → Radix → Prop
  | here : Replaces m s s' m s s'
  | left {above : Hook} {p : List Bool} {l l' r : Radix} (h : Replaces m s s' (some (p, false)) l l') :
      Replaces m s s' above (node p l r) (node p l' r)
  | right {above : Hook} {p : List Bool} {l r r' : Radix} (h : Replaces m s s' (some (p, true)) r r') :
      Replaces m s s' above (node p l r) (node p l r')

section Replaces

variable {m above : Hook} {s s' t t' : Radix} {q b k : List Bool}

theorem sub_of_mem_left {p : List Bool} {l r : Radix} (h : (node p l r).Ordered) (hq : q ∈ l.nodes) :
    (node p l r).sub q = l.sub q := by
  obtain ⟨hne, hbit⟩ := ne_of_mem_left h hq
  simp [Radix.sub, hne, hbit]

theorem sub_of_mem_right {p : List Bool} {l r : Radix} (h : (node p l r).Ordered) (hq : q ∈ r.nodes) :
    (node p l r).sub q = r.sub q := by
  obtain ⟨hne, hbit⟩ := ne_of_mem_right h hq
  simp [Radix.sub, hne, hbit]

theorem mem_of_sub {l r : Radix} (h : t.sub q = node q l r) : q ∈ t.nodes :=
  mem_of_mem_sub (by rw [h]; simp [nodes])

/-- The subtree is the whole tree, or a branch of the node it hangs on, and then the root stays. -/
theorem Replaces.branch (h : Replaces m s s' above t t') (ho : t.Ordered) :
    (m = above ∧ s = t ∧ s' = t') ∨
    ∃ q bit l r, m = some (q, bit) ∧ t.sub q = node q l r ∧ (if bit then r else l) = s ∧ t'.root? = t.root? := by
  induction h with
  | here => exact .inl ⟨rfl, rfl, rfl⟩
  | @left above p l l' r h ih =>
      refine .inr ?_
      obtain ⟨rfl, rfl, rfl⟩ | ⟨q, bit, lq, rq, hm, hsub, hbranch, -⟩ := ih ho.2.2.1
      · exact ⟨p, false, s, r, rfl, by simp [Radix.sub], rfl, rfl⟩
      · exact ⟨q, bit, lq, rq, hm, by rw [sub_of_mem_left ho (mem_of_sub hsub), hsub], hbranch, rfl⟩
  | @right above p l r r' h ih =>
      refine .inr ?_
      obtain ⟨rfl, rfl, rfl⟩ | ⟨q, bit, lq, rq, hm, hsub, hbranch, -⟩ := ih ho.2.2.2
      · exact ⟨p, true, l, s, rfl, by simp [Radix.sub], rfl, rfl⟩
      · exact ⟨q, bit, lq, rq, hm, by rw [sub_of_mem_right ho (mem_of_sub hsub), hsub], hbranch, rfl⟩

theorem Replaces.mem (h : Replaces m s s' above t t') (hq : q ∈ s.nodes) : q ∈ t.nodes := by
  induction h with
  | here => exact hq
  | left h ih => exact mem_node.mpr (.inr (.inl ih))
  | right h ih => exact mem_node.mpr (.inr (.inr ih))

theorem Replaces.ordered (h : Replaces m s s' above t t') (ho : t.Ordered) : s.Ordered := by
  induction h with
  | here => exact ho
  | left h ih => exact ih ho.2.2.1
  | right h ih => exact ih ho.2.2.2

/-- The nodes around the subtree stay. -/
theorem Replaces.nodes (h : Replaces m s s' above t t') :
    ∃ xs ys, t.nodes = xs ++ (s.nodes ++ ys) ∧ t'.nodes = xs ++ (s'.nodes ++ ys) := by
  induction h with
  | here => exact ⟨[], [], by simp, by simp⟩
  | @left above p l l' r h ih =>
      obtain ⟨xs, ys, hl, hl'⟩ := ih
      exact ⟨p :: xs, ys ++ r.nodes, by simp [nodes_node, hl], by simp [nodes_node, hl']⟩
  | @right above p l r r' h ih =>
      obtain ⟨xs, ys, hr, hr'⟩ := ih
      exact ⟨p :: (l.nodes ++ xs), ys, by simp [nodes_node, hr], by simp [nodes_node, hr']⟩

/-- The subtree can be replaced in two steps. -/
theorem Replaces.split {s₂ t₂ : Radix} (h : Replaces m s s₂ above t t₂) (s₁ : Radix) :
    ∃ t₁, Replaces m s s₁ above t t₁ ∧ Replaces m s₁ s₂ above t₁ t₂ := by
  induction h with
  | here => exact ⟨s₁, .here, .here⟩
  | left h ih => exact ih.elim fun l₁ hl => ⟨_, hl.1.left, hl.2.left⟩
  | right h ih => exact ih.elim fun r₁ hr => ⟨_, hr.1.right, hr.2.right⟩

theorem Replaces.trans {m' : Hook} {u u' : Radix} (h : Replaces m' u u' m s s') (h' : Replaces m s s' above t t') :
    Replaces m' u u' above t t' := by
  induction h' with
  | here => exact h
  | left h' ih => exact ih.left
  | right h' ih => exact ih.right

/-- A tree without some of the nodes of an ordered one. -/
theorem Replaces.ordered_left (h : Replaces m s s' above t t') (ho : t'.Ordered) (hs : s.Ordered)
    (hsub : ∀ q ∈ s.nodes, q ∈ s'.nodes) : t.Ordered := by
  have hnodes : ∀ {above t t'}, Replaces m s s' above t t' → ∀ q ∈ t.nodes, q ∈ t'.nodes := by
    intro above t t' h q hq
    obtain ⟨xs, ys, hxs, hys⟩ := h.nodes
    rw [hys]
    rw [hxs] at hq
    simp only [List.mem_append] at hq ⊢
    exact hq.imp_right (Or.imp_left (hsub q))
  induction h with
  | here => exact hs
  | left h ih => exact ⟨fun q hq => ho.1 q (hnodes h q hq), ho.2.1, ih ho.2.2.1, ho.2.2.2⟩
  | right h ih => exact ⟨ho.1, fun q hq => ho.2.1 q (hnodes h q hq), ho.2.2.1, ih ho.2.2.2⟩

/-- Where one node has come to the subtree, one has come to the tree. -/
theorem Replaces.new_node {x : List Bool} (h : Replaces m s s' above t t') (ho : t'.Ordered)
    (hnodes : s'.nodes.Perm (x :: s.nodes)) : t'.nodes.Perm (x :: t.nodes) ∧ x ∉ t.nodes := by
  obtain ⟨xs, ys, hxs, hys⟩ := h.nodes
  have hperm : t'.nodes.Perm (x :: t.nodes) := by
    rw [hxs, hys]
    refine ((hnodes.append_right ys).append_left xs).trans ?_
    exact List.perm_middle
  have hnodup : t'.nodes.Nodup := (nodes_pairwise ho).imp ne_of_lt
  exact ⟨hperm, (List.nodup_cons.mp (hperm.nodup hnodup)).1⟩

/-- The node without both branches is replaced by the branch that it has. -/
theorem replaces_splice (ho : t.Ordered) (hb : b ∈ t.nodes) (hfull : ¬ t.Full b) (above : Hook) :
    ∃ m l r, t.sub b = node b l r ∧ Replaces m (node b l r) (if l = nil then r else l) above t (Table.splice b t) := by
  induction t generalizing above with
  | nil => simp at hb
  | node p l r ihl ihr =>
      obtain rfl | hbl | hbr := mem_node.mp hb
      · refine ⟨above, l, r, by simp [Radix.sub], ?_⟩
        have hsplice : Table.splice b (node b l r) = if l = nil then r else l := by simp [Table.splice]
        rw [hsplice]
        exact .here
      · obtain ⟨hne, hbit⟩ := ne_of_mem_left ho hbl
        obtain ⟨m, l', r', hsub, hrep⟩ := ihl ho.2.2.1 hbl (fun h => hfull (.inr (.inl h))) (some (p, false))
        refine ⟨m, l', r', by rw [sub_of_mem_left ho hbl, hsub], ?_⟩
        simpa [Table.splice, hne, hbit] using hrep.left
      · obtain ⟨hne, hbit⟩ := ne_of_mem_right ho hbr
        obtain ⟨m, l', r', hsub, hrep⟩ := ihr ho.2.2.2 hbr (fun h => hfull (.inr (.inr h))) (some (p, true))
        refine ⟨m, l', r', by rw [sub_of_mem_right ho hbr, hsub], ?_⟩
        simpa [Table.splice, hne, hbit] using hrep.right

end Replaces

end Harry.Base.Radix

namespace Harry.Table

open Harry.Base Harry.Base.Radix

variable {α : Type}

/-! ### The representation -/

/-- Where the nodes are, and the bytes of their prefixes. -/
structure Layout where
  addr : List Bool → Addr
  pre : List Bool → Prefix

/-- The node that a subtree hangs on. -/
def Layout.hook (L : Layout) (m : Hook) : Option Addr :=
  m.map fun x => L.addr x.1

/-- A pointer to a tree. -/
def Layout.root (L : Layout) (t : Radix) : Option Addr :=
  t.root?.map L.addr

/-- The nodes of a tree are in memory, with their pointers to each other. -/
def Rep (node : Addr → Option (Node α)) (L : Layout) (lock : List Bool → Nat) (info : List Bool → Option α) :
    Option Addr → Radix → Prop
  | _, .nil => True
  | parent, .node p l r =>
    node (L.addr p) = some ⟨L.pre p, parent, L.root l, L.root r, lock p, info p⟩ ∧
      Rep node L lock info (some (L.addr p)) l ∧ Rep node L lock info (some (L.addr p)) r

section Rep

variable {node node' : Addr → Option (Node α)} {L L' : Layout} {lock lock' : List Bool → Nat}
  {info info' : List Bool → Option α} {par par' : Option Addr} {t t' s s' : Radix} {b q : List Bool}
  {m above : Hook}

theorem root_congr (h : ∀ q ∈ t.nodes, L'.addr q = L.addr q) : L'.root t = L.root t := by
  cases t with
  | nil => rfl
  | node p l r => simp [Layout.root, root?, h p (by simp [nodes])]

/-- A tree does not depend on other nodes. -/
theorem Rep.congr (h : Rep node L lock info par t) (hnode : ∀ q ∈ t.nodes, node' (L.addr q) = node (L.addr q))
    (haddr : ∀ q ∈ t.nodes, L'.addr q = L.addr q) (hpre : ∀ q ∈ t.nodes, L'.pre q = L.pre q)
    (hlock : ∀ q ∈ t.nodes, lock' q = lock q) (hinfo : ∀ q ∈ t.nodes, info' q = info q) :
    Rep node' L' lock' info' par t := by
  induction t generalizing par with
  | nil => trivial
  | node p l r ihl ihr =>
      simp only [mem_node, or_imp, forall_and, forall_eq] at hnode haddr hpre hlock hinfo
      refine ⟨?_, ?_, ?_⟩
      · rw [haddr.1, hpre.1, hlock.1, hinfo.1, root_congr haddr.2.1, root_congr haddr.2.2, hnode.1]
        exact h.1
      · rw [haddr.1]
        exact ihl h.2.1 hnode.2.1 haddr.2.1 hpre.2.1 hlock.2.1 hinfo.2.1
      · rw [haddr.1]
        exact ihr h.2.2 hnode.2.2 haddr.2.2 hpre.2.2 hlock.2.2 hinfo.2.2

theorem Rep.frame (h : Rep node L lock info par t) (hnode : ∀ q ∈ t.nodes, node' (L.addr q) = node (L.addr q)) :
    Rep node' L lock info par t :=
  h.congr hnode (fun _ _ => rfl) (fun _ _ => rfl) (fun _ _ => rfl) fun _ _ => rfl

/-- What is in memory for a node. -/
theorem Rep.at (h : Rep node L lock info par t) (ho : t.Ordered) {l r : Radix} (hsub : t.sub b = .node b l r) :
    node (L.addr b) =
      some ⟨L.pre b, ((t.parent b).map L.addr).or par, L.root l, L.root r, lock b, info b⟩ := by
  induction t generalizing par with
  | nil => cases hsub
  | node p l' r' ihl ihr =>
      obtain rfl | hb | hb := mem_node.mp (mem_of_sub hsub)
      · rw [Radix.sub, if_pos rfl] at hsub
        cases hsub
        simpa [parent_root] using h.1
      · rw [sub_of_mem_left ho hb] at hsub
        rw [ihl h.2.1 ho.2.2.1 hsub, parent_left ho hb]
        cases l'.parent b <;> rfl
      · rw [sub_of_mem_right ho hb] at hsub
        rw [ihr h.2.2 ho.2.2.2 hsub, parent_right ho hb]
        cases r'.parent b <;> rfl

/-- A tree under another parent. -/
theorem Rep.reparent (h : Rep node L lock info par t) (ho : t.Ordered)
    (hroot : ∀ q ∈ t.root?, node' (L.addr q) = (node (L.addr q)).map fun n => { n with parent := par' })
    (hnode : ∀ q ∈ t.nodes, t.root? ≠ some q → node' (L.addr q) = node (L.addr q)) :
    Rep node' L lock info par' t := by
  cases t with
  | nil => trivial
  | node p l r =>
      have hbelow : ∀ q, q ∈ l.nodes ∨ q ∈ r.nodes → node' (L.addr q) = node (L.addr q) := by
        intro q hq
        refine hnode q (mem_node.mpr (.inr hq)) fun hroot => ?_
        obtain rfl : p = q := by simpa [root?] using hroot
        obtain hq | hq := hq
        · exact (ne_of_mem_left ho hq).1 rfl
        · exact (ne_of_mem_right ho hq).1 rfl
      refine ⟨?_, h.2.1.frame fun q hq => hbelow q (.inl hq), h.2.2.frame fun q hq => hbelow q (.inr hq)⟩
      rw [hroot p rfl, h.1]
      rfl

/-- A tree with a subtree replaced: the link that leads to the subtree leads to the other one. -/
theorem Rep.replaces (hrep : Replaces m s s' above t t') (h : Rep node L lock info (L.hook above) t) (ho : t.Ordered)
    (hs : Rep node' L lock info (L.hook m) s')
    (hhook : ∀ q bit, m = some (q, bit) → q ∈ t.nodes →
      node' (L.addr q) = (node (L.addr q)).map fun n => n.putLink bit (L.root s'))
    (hframe : ∀ q ∈ t.nodes, q ∉ s.nodes → (∀ bit, m ≠ some (q, bit)) → node' (L.addr q) = node (L.addr q)) :
    Rep node' L lock info (L.hook above) t' := by
  induction hrep with
  | here => exact hs
  | @left above p l l' r hrep ih =>
      have hne : ∀ q, q ∈ l.nodes ∨ q ∈ r.nodes → q ≠ p := by
        rintro q (hq | hq)
        · exact (ne_of_mem_left ho hq).1.symm
        · exact (ne_of_mem_right ho hq).1.symm
      have hl : Rep node' L lock info (L.hook (some (p, false))) l' :=
        ih h.2.1 ho.2.2.1 (fun q bit hm hq => hhook q bit hm (by simp [mem_node, hq]))
          fun q hq => hframe q (by simp [mem_node, hq])
      have hps : p ∉ s.nodes := fun hp => hne p (.inl (hrep.mem hp)) rfl
      refine ⟨?_, hl, h.2.2.frame fun q hq => ?_⟩
      · obtain ⟨rfl, rfl, rfl⟩ | ⟨q, bit, lq, rq, rfl, hsub, -, hroot⟩ := hrep.branch ho.2.2.1
        · rw [hhook p false rfl (by simp [mem_node]), h.1]
          rfl
        · have hq : q ∈ l.nodes := mem_of_sub hsub
          have hl' : L.root l' = L.root l := congrArg (Option.map L.addr) hroot
          rw [hframe p (by simp [mem_node]) hps (by simp [hne q (.inl hq)]), h.1, hl']
      · have hqs : q ∉ s.nodes := fun hqs => not_both (ho.1 q (hrep.mem hqs)) (ho.2.1 q hq)
        refine hframe q (by simp [mem_node, hq]) hqs fun bit hm => ?_
        obtain ⟨rfl, -, -⟩ | ⟨q', bit', lq, rq, rfl, hsub, -, -⟩ := hrep.branch ho.2.2.1
        · simp [Ne.symm (hne q (.inr hq))] at hm
        · obtain ⟨rfl, -⟩ : q' = q ∧ bit' = bit := by simpa using hm
          exact not_both (ho.1 q' (mem_of_sub hsub)) (ho.2.1 q' hq)
  | @right above p l r r' hrep ih =>
      have hne : ∀ q, q ∈ l.nodes ∨ q ∈ r.nodes → q ≠ p := by
        rintro q (hq | hq)
        · exact (ne_of_mem_left ho hq).1.symm
        · exact (ne_of_mem_right ho hq).1.symm
      have hr : Rep node' L lock info (L.hook (some (p, true))) r' :=
        ih h.2.2 ho.2.2.2 (fun q bit hm hq => hhook q bit hm (by simp [mem_node, hq]))
          fun q hq => hframe q (by simp [mem_node, hq])
      have hps : p ∉ s.nodes := fun hp => hne p (.inr (hrep.mem hp)) rfl
      refine ⟨?_, h.2.1.frame fun q hq => ?_, hr⟩
      · obtain ⟨rfl, rfl, rfl⟩ | ⟨q, bit, lq, rq, rfl, hsub, -, hroot⟩ := hrep.branch ho.2.2.2
        · rw [hhook p true rfl (by simp [mem_node]), h.1]
          rfl
        · have hq : q ∈ r.nodes := mem_of_sub hsub
          have hr' : L.root r' = L.root r := congrArg (Option.map L.addr) hroot
          rw [hframe p (by simp [mem_node]) hps (by simp [hne q (.inr hq)]), h.1, hr']
      · have hqs : q ∉ s.nodes := fun hqs => not_both (ho.1 q hq) (ho.2.1 q (hrep.mem hqs))
        refine hframe q (by simp [mem_node, hq]) hqs fun bit hm => ?_
        obtain ⟨rfl, -, -⟩ | ⟨q', bit', lq, rq, rfl, hsub, -, -⟩ := hrep.branch ho.2.2.2
        · simp [Ne.symm (hne q (.inl hq))] at hm
        · obtain ⟨rfl, -⟩ : q' = q ∧ bit' = bit := by simpa using hm
          exact not_both (ho.1 q' hq) (ho.2.1 q' (mem_of_sub hsub))

/-- The subtree that is replaced. -/
theorem Rep.of_replaces (hrep : Replaces m s s' above t t') (h : Rep node L lock info (L.hook above) t) :
    Rep node L lock info (L.hook m) s := by
  induction hrep with
  | here => exact h
  | left hrep ih => exact ih h.2.1
  | right hrep ih => exact ih h.2.2

/-- The branches of a node. -/
theorem Rep.branches (h : Rep node L lock info par t) (ho : t.Ordered) {l r : Radix} (hsub : t.sub b = .node b l r) :
    Rep node L lock info (some (L.addr b)) l ∧ Rep node L lock info (some (L.addr b)) r := by
  induction t generalizing par with
  | nil => cases hsub
  | node p l' r' ihl ihr =>
      obtain rfl | hb | hb := mem_node.mp (mem_of_sub hsub)
      · rw [Radix.sub, if_pos rfl] at hsub
        cases hsub
        exact h.2
      · rw [sub_of_mem_left ho hb] at hsub
        exact ihl h.2.1 ho.2.2.1 hsub
      · rw [sub_of_mem_right ho hb] at hsub
        exact ihr h.2.2 ho.2.2.2 hsub

/-- A tree whose locks and what hangs on it change. -/
theorem Rep.relabel (h : Rep node L lock info par t)
    (hnode : ∀ q ∈ t.nodes, ∀ n, node (L.addr q) = some n → n.lock = lock q → n.info = info q →
      node' (L.addr q) = some { n with lock := lock' q, info := info' q }) : Rep node' L lock' info' par t := by
  induction t generalizing par with
  | nil => trivial
  | node p l r ihl ihr =>
      simp only [mem_node, or_imp, forall_and, forall_eq] at hnode
      exact ⟨hnode.1 _ h.1 rfl rfl, ihl h.2.1 hnode.2.1, ihr h.2.2 hnode.2.2⟩

end Rep

/-- A table is what is in memory. The prefixes are of one family. -/
structure Refines (f : Family) (h : Heap α) (L : Layout) (t : RouteTable α) : Prop where
  top : h.top = L.root t.top
  rep : Rep h.node L t.lock t.info none t.top
  addr_inj : ∀ b ∈ t.top.nodes, ∀ c ∈ t.top.nodes, L.addr b = L.addr c → b = c
  key : ∀ b ∈ t.top.nodes, (L.pre b).key = b
  family : ∀ b ∈ t.top.nodes, (L.pre b).family = f
  only : ∀ a n, h.node a = some n → ∃ b ∈ t.top.nodes, L.addr b = a
  size : h.size = t.top.nodes.length

theorem Refines.init {f : Family} {L : Layout} : Refines f (heapInit : Heap α) L routeTableInit where
  top := rfl
  rep := trivial
  addr_inj := by simp [routeTableInit]
  key := by simp [routeTableInit]
  family := by simp [routeTableInit]
  only a n hn := by cases hn
  size := rfl

section Refines

variable {f : Family} {h h' : Heap α} {L : Layout} {t t' : RouteTable α} {b c q : List Bool} {a : Addr}

/-- The node of a prefix. -/
theorem Refines.node (hr : Refines f h L t) (ho : t.top.Ordered) {l r : Radix} (hsub : t.top.sub b = .node b l r) :
    h.node (L.addr b) =
      some ⟨L.pre b, (t.top.parent b).map L.addr, L.root l, L.root r, t.lock b, t.info b⟩ := by
  simpa using hr.rep.at ho hsub

theorem Refines.exists_node (hr : Refines f h L t) (ho : t.top.Ordered) (hb : b ∈ t.top.nodes) :
    ∃ n, h.node (L.addr b) = some n ∧ n.p = L.pre b ∧ n.lock = t.lock b ∧ n.info = t.info b ∧
      n.parent = (t.top.parent b).map L.addr := by
  obtain ⟨l, r, hsub⟩ := exists_sub ho hb
  exact ⟨_, hr.node ho hsub, rfl, rfl, rfl, rfl⟩

/-- The layout and the table determine the memory. -/
theorem Refines.heap_eq (hr : Refines f h L t) (hr' : Refines f h' L t) (ho : t.top.Ordered) : h = h' := by
  have hnode : h.node = h'.node := by
    funext a
    have hsome : ∀ {g g' : Heap α}, Refines f g L t → Refines f g' L t → ∀ n, g.node a = some n → g'.node a = some n := by
      intro g g' hg hg' n hn
      obtain ⟨b, hb, rfl⟩ := hg.only a n hn
      obtain ⟨l, r, hsub⟩ := exists_sub ho hb
      rw [hg'.node ho hsub, ← hg.node ho hsub, hn]
    exact Option.ext fun n => ⟨hsome hr hr' n, hsome hr' hr n⟩
  cases h
  cases h'
  obtain rfl := hnode
  obtain rfl := hr.top.trans hr'.top.symm
  obtain rfl := hr.size.trans hr'.size.symm
  rfl

end Refines

end Harry.Table
