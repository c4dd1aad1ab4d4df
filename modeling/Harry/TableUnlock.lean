import Harry.RouteNode

/-! What goes when a node is unlocked. A node with at most one branch is spliced out, and then the node above it may be
one that nobody holds. The tree stays ordered, every other node keeps the branches that it had but for the one that was
only the node itself (`sub_splice`), and the deletions come to an end in a table that keeps its nodes
(`KeptBut.delete`). -/

namespace Harry.Base

namespace Radix

variable {t : Radix} {b q : List Bool}

theorem mem_of_mem_sub (h : q ∈ (t.sub b).nodes) : q ∈ t.nodes := by
  induction t with
  | nil => exact h
  | node p l r ihl ihr =>
      rw [mem_node]
      simp only [sub] at h
      split_ifs at h with hp hbit
      · exact mem_node.mp h
      · exact .inr (.inr (ihr h))
      · exact .inr (.inl (ihl h))

theorem Ordered.sub (h : t.Ordered) (b : List Bool) : (t.sub b).Ordered := by
  induction t with
  | nil => exact h
  | node p l r ihl ihr =>
      simp only [Radix.sub]
      split_ifs
      · exact h
      · exact ihr h.2.2.2
      · exact ihl h.2.2.1

/-- The way down to a node finds it. -/
theorem exists_sub (h : t.Ordered) (hb : b ∈ t.nodes) : ∃ l r, t.sub b = node b l r := by
  induction t with
  | nil => simp at hb
  | node p l r ihl ihr =>
      obtain rfl | hb | hb := mem_node.mp hb
      · exact ⟨l, r, by simp [Radix.sub]⟩
      · obtain ⟨hne, hbit⟩ := ne_of_mem_left h hb
        simpa [Radix.sub, hne, hbit] using ihl h.2.2.1 hb
      · obtain ⟨hne, hbit⟩ := ne_of_mem_right h hb
        simpa [Radix.sub, hne, hbit] using ihr h.2.2.2 hb

theorem full_of_sub {l r : Radix} (h : t.sub b = node b l r) (hl : l ≠ nil) (hr : r ≠ nil) : t.Full b := by
  induction t with
  | nil => cases h
  | node p l' r' ihl ihr =>
      simp only [Radix.sub] at h
      split_ifs at h with hp hbit
      · cases h
        exact .inl ⟨rfl, hl, hr⟩
      · exact .inr (.inr (ihr h))
      · exact .inr (.inl (ihl h))

/-- The way down to what is below a node leads past the node. -/
theorem sub_of_mem_sub (h : t.Ordered) (hb : b ∈ (t.sub q).nodes) : t.sub b = (t.sub q).sub b := by
  induction t with
  | nil => rfl
  | node p l r ihl ihr =>
      by_cases hp : p = q
      · simp [Radix.sub, hp]
      · cases hbit : bitAt q p.length with
        | false =>
            simp only [Radix.sub, hp, hbit, if_false, Bool.false_eq_true] at hb ⊢
            obtain ⟨hne, hbit'⟩ := ne_of_mem_left h (mem_of_mem_sub hb)
            simpa [hne, hbit'] using ihl h.2.2.1 hb
        | true =>
            simp only [Radix.sub, hp, hbit, if_false, if_true] at hb ⊢
            obtain ⟨hne, hbit'⟩ := ne_of_mem_right h (mem_of_mem_sub hb)
            simpa [hne, hbit'] using ihr h.2.2.2 hb

/-- A branch begins with a node whose parent is the node of the branch. -/
theorem parent_of_sub {l r : Radix} (h : t.Ordered) (hq : t.sub q = node q l r)
    (hb : l.root? = some b ∨ r.root? = some b) : t.parent b = some q := by
  have hmem : b ∈ (t.sub q).nodes := by
    rw [hq, mem_node]
    refine .inr (hb.imp ?_ ?_) <;>
    · intro hroot
      rw [← head?_nodes] at hroot
      exact List.mem_of_mem_head? hroot
  have hlt : q.length < b.length := by
    have ho := h.sub q
    rw [hq] at ho hmem
    obtain rfl | hbl | hbr := mem_node.mp hmem
    · obtain hb | hb := hb
      · rw [← head?_nodes] at hb
        exact absurd rfl (ne_of_mem_left ho (List.mem_of_mem_head? hb)).1
      · rw [← head?_nodes] at hb
        exact absurd rfl (ne_of_mem_right ho (List.mem_of_mem_head? hb)).1
    · exact Nat.lt_of_succ_le (by simpa using (ho.1 b hbl).length_le)
    · exact Nat.lt_of_succ_le (by simpa using (ho.2.1 b hbr).length_le)
  induction t with
  | nil => cases hq
  | node p l' r' ihl ihr =>
      -- `b` is no root of a tree that has `q`
      have hroot : ∀ s : Radix, s.Ordered → q ∈ s.nodes → s.root? ≠ some b := by
        intro s hs hqs hroot
        cases s with
        | nil => simp at hqs
        | node x ls rs =>
            obtain rfl : x = b := by simpa [root?] using hroot
            exact absurd (hs.prefix_of_root List.prefix_rfl q hqs).length_le (by omega)
      by_cases hp : p = q
      · subst hp
        rw [Radix.sub, if_pos rfl] at hq
        obtain ⟨-, hl, hr⟩ := node.inj hq
        rw [← hl, ← hr] at hb
        obtain hbl | hbr := hb
        · have hbl' : b ∈ l'.nodes := by
            rw [← head?_nodes] at hbl
            exact List.mem_of_mem_head? hbl
          simp [parent, ne_of_mem_left h hbl', hbl]
        · have hbr' : b ∈ r'.nodes := by
            rw [← head?_nodes] at hbr
            exact List.mem_of_mem_head? hbr
          simp [parent, ne_of_mem_right h hbr', hbr]
      · cases hbit : bitAt q p.length with
        | false =>
            simp only [Radix.sub, hp, hbit, if_false, Bool.false_eq_true] at hq hmem
            have hql : q ∈ l'.nodes := mem_of_mem_sub (by rw [hq]; simp [nodes])
            simpa [parent, ne_of_mem_left h (mem_of_mem_sub hmem), hroot l' h.2.2.1 hql] using
              ihl h.2.2.1 hq hmem
        | true =>
            simp only [Radix.sub, hp, hbit, if_false, if_true] at hq hmem
            have hqr : q ∈ r'.nodes := mem_of_mem_sub (by rw [hq]; simp [nodes])
            simpa [parent, ne_of_mem_right h (mem_of_mem_sub hmem), hroot r' h.2.2.2 hqr] using
              ihr h.2.2.2 hq hmem

/-- The parent in a branch, which hangs on the node. -/
theorem parent_branch {s : Radix} (h : s.Ordered) (hb : b ∈ s.nodes) (p : List Bool) :
    (if s.root? = some b then some p else s.parent b) = (s.parent b).or (some p) := by
  obtain ⟨xs, ys, hnodes⟩ := List.append_of_mem hb
  have hroot : s.root? = (xs ++ b :: ys).head? := by rw [← hnodes, head?_nodes]
  obtain ⟨rfl, hnone⟩ | ⟨q, hq, hsome⟩ := parent_mem h hnodes
  · simp [hroot, hnone]
  · cases xs with
    | nil => simp at hq
    | cons x xs =>
        have hsorted := nodes_pairwise h
        rw [hnodes, List.cons_append, List.pairwise_cons] at hsorted
        have hne : x ≠ b := ne_of_lt (hsorted.1 b (by simp))
        simp [hroot, hne, hsome]

theorem parent_left {p : List Bool} {l r : Radix} (h : (node p l r).Ordered) (hb : b ∈ l.nodes) :
    (node p l r).parent b = (l.parent b).or (some p) := by
  rw [← parent_branch h.2.2.1 hb p]
  simp [parent, ne_of_mem_left h hb]

theorem parent_right {p : List Bool} {l r : Radix} (h : (node p l r).Ordered) (hb : b ∈ r.nodes) :
    (node p l r).parent b = (r.parent b).or (some p) := by
  rw [← parent_branch h.2.2.2 hb p]
  simp [parent, ne_of_mem_right h hb]

theorem mem_of_parent {p : List Bool} (h : t.Ordered) (hb : b ∈ t.nodes) (hp : t.parent b = some p) :
    p ∈ t.nodes ∧ p ≠ b := by
  obtain ⟨xs, ys, hnodes⟩ := List.append_of_mem hb
  obtain ⟨-, hnone⟩ | ⟨p', hmem, hp'⟩ := parent_mem h hnodes
  · rw [hnone] at hp
    cases hp
  · obtain rfl : p' = p := Option.some.inj (hp'.symm.trans hp)
    have hsorted := nodes_pairwise h
    rw [hnodes] at hsorted ⊢
    exact ⟨List.mem_append_left _ hmem, ne_of_lt ((List.pairwise_append.mp hsorted).2.2 p' hmem b (by simp))⟩

/-- A node is where a branch of its parent begins. -/
theorem branch_of_parent (h : t.Ordered) (hb : b ∈ t.nodes) (hpar : t.parent b = some q) :
    ∃ l r, t.sub q = node q l r ∧ (l.root? = some b ∨ r.root? = some b) := by
  induction t with
  | nil => simp at hb
  | node p l r ihl ihr =>
      obtain rfl | hbl | hbr := mem_node.mp hb
      · rw [parent_root] at hpar
        cases hpar
      · obtain ⟨hne, hbit⟩ := ne_of_mem_left h hbl
        simp only [parent, hne, hbit, if_false, Bool.false_eq_true] at hpar
        split_ifs at hpar with hroot
        · obtain rfl := Option.some.inj hpar
          exact ⟨l, r, by simp [Radix.sub], .inl hroot⟩
        · obtain ⟨hqne, hqbit⟩ := ne_of_mem_left h (mem_of_parent h.2.2.1 hbl hpar).1
          simpa [Radix.sub, hqne, hqbit] using ihl h.2.2.1 hbl hpar
      · obtain ⟨hne, hbit⟩ := ne_of_mem_right h hbr
        simp only [parent, hne, hbit, if_false, if_true] at hpar
        split_ifs at hpar with hroot
        · obtain rfl := Option.some.inj hpar
          exact ⟨l, r, by simp [Radix.sub], .inr hroot⟩
        · obtain ⟨hqne, hqbit⟩ := ne_of_mem_right h (mem_of_parent h.2.2.2 hbr hpar).1
          simpa [Radix.sub, hqne, hqbit] using ihr h.2.2.2 hbr hpar

end Radix

end Harry.Base

namespace Harry.Table

open Harry.Base Harry.Base.Radix

/-! ### Trees without a node -/

section Splice

variable {t : Radix} {b q : List Bool}

theorem splice_of_not_mem (h : b ∉ t.nodes) : splice b t = t := by
  induction t with
  | nil => rfl
  | node p l r ihl ihr =>
      rw [mem_node, not_or, not_or] at h
      simp [splice, Ne.symm h.1, ihl h.2.1, ihr h.2.2]

/-- Induction along the way down to the node that goes. -/
theorem splice_induct (b : List Bool) {P : Radix → Radix → Prop}
    (onlyLeft : ∀ l, (node b l nil).Ordered → P (node b l nil) l)
    (onlyRight : ∀ r, (node b nil r).Ordered → P (node b nil r) r)
    (left : ∀ p l r, (node p l r).Ordered → b ∈ l.nodes → P l (splice b l) → P (node p l r) (node p (splice b l) r))
    (right : ∀ p l r, (node p l r).Ordered → b ∈ r.nodes → P r (splice b r) → P (node p l r) (node p l (splice b r)))
    (ho : t.Ordered) (hb : b ∈ t.nodes) (hfull : ¬ t.Full b) : P t (splice b t) := by
  induction t with
  | nil => simp at hb
  | node p l r ihl ihr =>
      obtain rfl | hbl | hbr := mem_node.mp hb
      · by_cases hl : l = nil
        · subst hl
          simpa [splice] using onlyRight r ho
        · have hr : r = nil := by
            by_contra hr
            exact hfull (.inl ⟨rfl, hl, hr⟩)
          subst hr
          simpa [splice, hl] using onlyLeft l ho
      · obtain ⟨hne, hbit⟩ := ne_of_mem_left ho hbl
        simpa [splice, hne, hbit] using
          left p l r ho hbl (ihl ho.2.2.1 hbl fun h => hfull (.inr (.inl h)))
      · obtain ⟨hne, hbit⟩ := ne_of_mem_right ho hbr
        simpa [splice, hne, hbit] using
          right p l r ho hbr (ihr ho.2.2.2 hbr fun h => hfull (.inr (.inr h)))

theorem nodes_splice (ho : t.Ordered) (hb : b ∈ t.nodes) (hfull : ¬ t.Full b) :
    (splice b t).nodes = t.nodes.erase b := by
  refine splice_induct b (P := fun t t' => t'.nodes = t.nodes.erase b) ?_ ?_ ?_ ?_ ho hb hfull
  · intro l _
    simp [nodes]
  · intro r _
    simp [nodes]
  · intro p l r ho hb ih
    rw [nodes_node, nodes_node, ih, List.erase_cons_tail (by simpa using (ne_of_mem_left ho hb).1),
      List.erase_append_left _ hb]
  · intro p l r ho hb ih
    have hl : b ∉ l.nodes := fun hl => not_both (ho.1 b hl) (ho.2.1 b hb)
    rw [nodes_node, nodes_node, ih, List.erase_cons_tail (by simpa using (ne_of_mem_right ho hb).1),
      List.erase_append_right _ hl]

theorem mem_splice (ho : t.Ordered) (hb : b ∈ t.nodes) (hfull : ¬ t.Full b) :
    q ∈ (splice b t).nodes ↔ q ≠ b ∧ q ∈ t.nodes := by
  rw [nodes_splice ho hb hfull]
  exact List.Nodup.mem_erase_iff ((nodes_pairwise ho).imp ne_of_lt)

theorem ordered_splice (ho : t.Ordered) (hb : b ∈ t.nodes) (hfull : ¬ t.Full b) : (splice b t).Ordered := by
  refine (splice_induct b (P := fun t t' => (∀ q ∈ t'.nodes, q ∈ t.nodes) ∧ t'.Ordered) ?_ ?_ ?_ ?_ ho hb hfull).2
  · exact fun l h => ⟨fun q hq => by simp [nodes, hq], h.2.2.1⟩
  · exact fun r h => ⟨fun q hq => by simp [nodes, hq], h.2.2.2⟩
  · rintro p l r ho _ ⟨hsub, ih⟩
    refine ⟨fun q hq => ?_, fun q hq => ho.1 q (hsub q hq), ho.2.1, ih, ho.2.2.2⟩
    rw [mem_node] at hq ⊢
    exact hq.imp_right (Or.imp_left (hsub q))
  · rintro p l r ho _ ⟨hsub, ih⟩
    refine ⟨fun q hq => ?_, ho.1, fun q hq => ho.2.1 q (hsub q hq), ho.2.2.1, ih⟩
    rw [mem_node] at hq ⊢
    exact hq.imp_right (Or.imp_right (hsub q))

/-- What is below another node is spliced the same way. -/
theorem sub_splice (ho : t.Ordered) (hb : b ∈ t.nodes) (hfull : ¬ t.Full b) (hq : q ∈ t.nodes) (hne : q ≠ b) :
    (splice b t).sub q = splice b (t.sub q) := by
  refine splice_induct b (P := fun t t' => q ∈ t.nodes → t'.sub q = splice b (t.sub q)) ?_ ?_ ?_ ?_ ho hb hfull hq
  · intro l ho hq
    have hql : q ∈ l.nodes := by simpa [nodes, hne] using hq
    have hbit := (ne_of_mem_left ho hql).2
    have hbl : b ∉ (l.sub q).nodes := fun h => (ne_of_mem_left ho (mem_of_mem_sub h)).1 rfl
    simp [Radix.sub, Ne.symm hne, hbit, splice_of_not_mem hbl]
  · intro r ho hq
    have hqr : q ∈ r.nodes := by simpa [nodes, hne] using hq
    have hbit := (ne_of_mem_right ho hqr).2
    have hbr : b ∉ (r.sub q).nodes := fun h => (ne_of_mem_right ho (mem_of_mem_sub h)).1 rfl
    simp [Radix.sub, Ne.symm hne, hbit, splice_of_not_mem hbr]
  · intro p l r ho hbl ih hq
    obtain ⟨hpb, hbit⟩ := ne_of_mem_left ho hbl
    obtain rfl | hql | hqr := mem_node.mp hq
    · simp [Radix.sub, splice, hpb, hbit]
    · obtain ⟨hpq, hqbit⟩ := ne_of_mem_left ho hql
      simpa [Radix.sub, hpq, hqbit] using ih hql
    · obtain ⟨hpq, hqbit⟩ := ne_of_mem_right ho hqr
      have hbr : b ∉ (r.sub q).nodes := fun h => not_both (ho.1 b hbl) (ho.2.1 b (mem_of_mem_sub h))
      simp [Radix.sub, hpq, hqbit, splice_of_not_mem hbr]
  · intro p l r ho hbr ih hq
    obtain ⟨hpb, hbit⟩ := ne_of_mem_right ho hbr
    obtain rfl | hql | hqr := mem_node.mp hq
    · simp [Radix.sub, splice, hpb, hbit]
    · obtain ⟨hpq, hqbit⟩ := ne_of_mem_left ho hql
      have hbl : b ∉ (l.sub q).nodes := fun h => not_both (ho.1 b (mem_of_mem_sub h)) (ho.2.1 b hbr)
      simp [Radix.sub, hpq, hqbit, splice_of_not_mem hbl]
    · obtain ⟨hpq, hqbit⟩ := ne_of_mem_right ho hqr
      simpa [Radix.sub, hpq, hqbit] using ih hqr

/-- Only a tree of one node is empty without it. -/
theorem splice_eq_nil : splice b t = nil ↔ t = nil ∨ t = node b nil nil := by
  cases t with
  | nil => simp [splice]
  | node p l r =>
      by_cases hp : p = b
      · subst hp
        by_cases hl : l = nil <;> simp [splice, hl]
      · simp only [splice, hp, if_false]
        split <;> simp [hp]

/-- One of the branches of a node is the other node only. -/
def HoldsLeaf (b q : List Bool) (t : Radix) : Prop :=
  ∃ l r, t.sub q = node q l r ∧ (l = node b nil nil ∨ r = node b nil nil)

theorem HoldsLeaf.parent (ho : t.Ordered) (h : HoldsLeaf b q t) : t.parent b = some q := by
  obtain ⟨l, r, hsub, hleaf⟩ := h
  exact parent_of_sub ho hsub (hleaf.imp (fun h => by rw [h]; rfl) fun h => by rw [h]; rfl)

theorem HoldsLeaf.sub (ho : t.Ordered) (h : HoldsLeaf b q t) : t.sub b = node b nil nil := by
  obtain ⟨l, r, hsub, hleaf⟩ := h
  have hmem : b ∈ (t.sub q).nodes := by
    rw [hsub, mem_node]
    exact .inr (hleaf.imp (fun h => by simp [h, nodes]) fun h => by simp [h, nodes])
  have hosub := ho.sub q
  rw [sub_of_mem_sub ho hmem]
  rw [hsub] at hosub ⊢
  obtain rfl | rfl := hleaf
  · obtain ⟨hne, hbit⟩ := ne_of_mem_left (b := b) hosub (by simp [nodes])
    simp [Radix.sub, hne, hbit]
  · obtain ⟨hne, hbit⟩ := ne_of_mem_right (b := b) hosub (by simp [nodes])
    simp [Radix.sub, hne, hbit]

/-- Another node keeps both of its branches, unless the one is only the node that goes. -/
theorem full_splice (ho : t.Ordered) (hb : b ∈ t.nodes) (hfull : ¬ t.Full b) (hne : q ≠ b) (hq : t.Full q)
    (hleaf : ¬ HoldsLeaf b q t) : (splice b t).Full q := by
  obtain ⟨l, r, hsub, hl, hr⟩ := hq.sub ho
  have hsplice := sub_splice ho hb hfull hq.mem hne
  have hl' : splice b l ≠ nil := fun h =>
    (splice_eq_nil.mp h).elim hl fun h => hleaf ⟨l, r, hsub, .inl h⟩
  have hr' : splice b r ≠ nil := fun h =>
    (splice_eq_nil.mp h).elim hr fun h => hleaf ⟨l, r, hsub, .inr h⟩
  rw [hsub, splice, if_neg hne] at hsplice
  split at hsplice
  · exact full_of_sub hsplice hl hr'
  · exact full_of_sub hsplice hl' hr

theorem HoldsLeaf.not_full (ho : t.Ordered) (h : HoldsLeaf b q t) : ¬ t.Full b := by
  intro hfull
  obtain ⟨l, r, hsub, hl, -⟩ := hfull.sub ho
  rw [h.sub ho] at hsub
  cases hsub
  exact hl rfl

theorem HoldsLeaf.mem (h : HoldsLeaf b q t) : b ∈ t.nodes := by
  obtain ⟨l, r, hsub, hleaf⟩ := h
  refine mem_of_mem_sub (b := q) ?_
  rw [hsub, mem_node]
  exact .inr (hleaf.imp (fun h => by simp [h, nodes]) fun h => by simp [h, nodes])

/-- Without its leaf a node has not both branches. -/
theorem HoldsLeaf.not_full_splice (ho : t.Ordered) (h : HoldsLeaf b q t) : ¬ (splice b t).Full q := by
  intro hq
  have hb := h.mem
  have hfull := h.not_full ho
  obtain ⟨hqt, hne⟩ := mem_of_parent ho hb (h.parent ho)
  have hsplice := sub_splice ho hb hfull hqt hne
  obtain ⟨l', r', hsub', hl', hr'⟩ := hq.sub (ordered_splice ho hb hfull)
  obtain ⟨l, r, hsub, hleaf⟩ := h
  have hosub := ho.sub q
  rw [hsub] at hosub hsplice
  rw [hsub'] at hsplice
  obtain rfl | rfl := hleaf
  · obtain ⟨-, hbit⟩ := ne_of_mem_left (b := b) hosub (by simp [nodes])
    rw [splice, if_neg hne, hbit, if_neg Bool.false_ne_true] at hsplice
    cases hsplice
    exact hl' (splice_eq_nil.mpr (.inr rfl))
  · obtain ⟨-, hbit⟩ := ne_of_mem_right (b := b) hosub (by simp [nodes])
    rw [splice, if_neg hne, hbit, if_pos rfl] at hsplice
    cases hsplice
    exact hr' (splice_eq_nil.mpr (.inr rfl))

/-- A node that had both branches is no leaf. -/
theorem not_holdsLeaf_splice {p : List Bool} (ho : t.Ordered) (hb : b ∈ t.nodes) (hfull : ¬ t.Full b) (hne : p ≠ b)
    (hp : t.Full p) : ¬ HoldsLeaf p q (splice b t) := by
  intro hleaf
  have hsub := hleaf.sub (ordered_splice ho hb hfull)
  rw [sub_splice ho hb hfull hp.mem hne] at hsub
  obtain ⟨l, r, hsub', hl, hr⟩ := hp.sub ho
  rw [hsub', splice, if_neg hne] at hsub
  split at hsub
  · exact hl (node.inj hsub).2.1
  · exact hr (node.inj hsub).2.2

end Splice

variable {α : Type}

/-- No node but the given one can go that nobody holds. -/
structure KeptBut (t : RouteTable α) (b : List Bool) : Prop where
  ordered : t.top.Ordered
  held : ∀ c ∈ t.top.nodes, c ≠ b → 0 < t.lock c ∨ (t.info c = none ∧ t.top.Full c)
  bare : ∀ c, c ∉ t.top.nodes → t.info c = none

section Delete

variable {t : RouteTable α} {b p : List Bool} {n : Nat}

/-- What goes with the node `b` that nobody holds: the node if it has not both branches, and the node above it if that
held only the leaf. -/
structure Removed (t : RouteTable α) (b : List Bool) (t' : RouteTable α) : Prop where
  kept : Kept t'
  lock : t'.lock = t.lock
  info : t'.info = t.info
  sub : ∀ q ∈ t'.top.nodes, q ∈ t.top.nodes
  self : b ∈ t'.top.nodes ↔ t.top.Full b
  stays : ∀ q ∈ t.top.nodes, q ≠ b → 0 < t.lock q ∨ ¬ HoldsLeaf b q t.top → q ∈ t'.top.nodes
  goes : ∀ q, HoldsLeaf b q t.top → t.lock q = 0 → q ∉ t'.top.nodes

theorem routeNodeDelete_splice (ho : t.top.Ordered) (hb : b ∈ t.top.nodes) (hlock : t.lock b = 0)
    (hinfo : t.info b = none) (hfull : ¬ t.top.Full b) :
    routeNodeDelete (n + 1) t b =
      (t.top.parent b).elim (some { t with top := splice b t.top }) fun p =>
        if t.lock p = 0 then routeNodeDelete n { t with top := splice b t.top } p
        else some { t with top := splice b t.top } := by
  obtain ⟨l, r, hsub⟩ := exists_sub ho hb
  have hbranches : ¬ (l ≠ nil ∧ r ≠ nil) := fun h => hfull (full_of_sub hsub h.1 h.2)
  rw [routeNodeDelete, if_neg (by simp [hlock, hinfo]), hsub]
  simp only [if_neg hbranches]
  cases t.top.parent b <;> rfl

/-- The table without a node, when the node above is not one that goes too. -/
theorem KeptBut.splice (h : KeptBut t b) (hb : b ∈ t.top.nodes) (hinfo : t.info b = none) (hfull : ¬ t.top.Full b)
    (c : List Bool) (hc : t.top.parent b = none ∨ t.top.parent b = some c) :
    KeptBut { t with top := Table.splice b t.top } c := by
  refine ⟨ordered_splice h.ordered hb hfull, fun d hd hdc => ?_, fun d hd => ?_⟩
  · obtain ⟨hdb, hdt⟩ := (mem_splice h.ordered hb hfull).mp hd
    refine (h.held d hdt hdb).imp_right fun ⟨hnone, hd⟩ => ⟨hnone, ?_⟩
    refine full_splice h.ordered hb hfull hdb hd fun hleaf => ?_
    have hpar := hleaf.parent h.ordered
    obtain hc | hc := hc
    · rw [hc] at hpar
      cases hpar
    · rw [hc] at hpar
      exact hdc (Option.some.inj hpar).symm
  · by_cases hdb : d = b
    · rw [hdb]
      exact hinfo
    · exact h.bare d fun hdt => hd ((mem_splice h.ordered hb hfull).mpr ⟨hdb, hdt⟩)

theorem KeptBut.kept (h : KeptBut t b) (hb : b ∈ t.top.nodes → 0 < t.lock b ∨ (t.info b = none ∧ t.top.Full b)) :
    Kept t := by
  refine ⟨h.ordered, fun c hc => ?_, h.bare⟩
  by_cases hcb : c = b
  · subst hcb
    exact hb hc
  · exact h.held c hc hcb

/-- `route_node_delete` comes to an end. -/
theorem KeptBut.delete (h : KeptBut t b) (hb : b ∈ t.top.nodes) (hlock : t.lock b = 0) (hinfo : t.info b = none)
    (hn : t.top.nodes.length ≤ n) : ∃ t', routeNodeDelete n t b = some t' ∧ Removed t b t' := by
  induction n generalizing t b with
  | zero => exact absurd (List.length_pos_of_mem hb) (by omega)
  | succ n ih =>
      by_cases hfull : t.top.Full b
      · refine ⟨t, routeNodeDelete_full h.ordered hlock hinfo hfull, h.kept fun _ => .inr ⟨hinfo, hfull⟩, rfl, rfl,
          fun q hq => hq, iff_of_true hb hfull, fun q hq _ _ => hq, fun q hleaf => ?_⟩
        exact absurd hfull (hleaf.not_full h.ordered)
      have hmem : ∀ q, q ∈ (Table.splice b t.top).nodes ↔ q ≠ b ∧ q ∈ t.top.nodes := fun q =>
        mem_splice h.ordered hb hfull
      have hself : b ∈ (Table.splice b t.top).nodes ↔ t.top.Full b := by simp [hmem, hfull]
      rw [routeNodeDelete_splice h.ordered hb hlock hinfo hfull]
      cases hpar : t.top.parent b with
      | none =>
          have hkept := (h.splice hb hinfo hfull b (.inl hpar)).kept fun hb => absurd hb (by simp [hmem])
          refine ⟨_, rfl, hkept, rfl, rfl, fun q hq => ((hmem q).mp hq).2, hself,
            fun q hq hqb _ => (hmem q).mpr ⟨hqb, hq⟩, fun q hleaf => ?_⟩
          rw [hleaf.parent h.ordered] at hpar
          cases hpar
      | some p =>
          obtain ⟨hpt, hpb⟩ := mem_of_parent h.ordered hb hpar
          have hbut := h.splice hb hinfo hfull p (.inr hpar)
          have hparent : ∀ q, HoldsLeaf b q t.top → q = p := fun q hleaf =>
            Option.some.inj ((hleaf.parent h.ordered).symm.trans hpar)
          by_cases hp : t.lock p = 0
          · obtain hpos | ⟨hpinfo, hpfull⟩ := h.held p hpt hpb
            · omega
            have hlen : (Table.splice b t.top).nodes.length ≤ n := by
              rw [nodes_splice h.ordered hb hfull, List.length_erase_of_mem hb]
              omega
            obtain ⟨t', hrun, hrem⟩ := ih hbut ((hmem p).mpr ⟨hpb, hpt⟩) hp hpinfo hlen
            refine ⟨t', by simpa [hp] using hrun, hrem.kept, hrem.lock, hrem.info,
              fun q hq => ((hmem q).mp (hrem.sub q hq)).2, ?_, fun q hq hqb hstays => ?_, fun q hleaf _ => ?_⟩
            · refine iff_of_false (fun hb => ?_) hfull
              exact ((hmem b).mp (hrem.sub b hb)).1 rfl
            · by_cases hqp : q = p
              · subst hqp
                refine hrem.self.mpr (full_splice h.ordered hb hfull hqb hpfull ?_)
                exact hstays.resolve_left (by omega)
              · exact hrem.stays q ((hmem q).mpr ⟨hqb, hq⟩) hqp
                  (.inr (not_holdsLeaf_splice h.ordered hb hfull hpb hpfull))
            · obtain rfl := hparent q hleaf
              exact fun hq => hleaf.not_full_splice h.ordered (hrem.self.mp hq)
          · refine ⟨{ t with top := Table.splice b t.top }, by simp [hp],
              hbut.kept fun _ => .inl (Nat.pos_of_ne_zero hp), rfl, rfl, fun q hq => ((hmem q).mp hq).2, hself,
              fun q hq hqb _ => (hmem q).mpr ⟨hqb, hq⟩, fun q hleaf hq => ?_⟩
            exact absurd (hparent q hleaf ▸ hq) hp

/-- A table in which a node is about to be deleted. -/
theorem Kept.but (h : Kept t) : KeptBut { t with lock := Function.update t.lock b 0 } b := by
  refine ⟨h.ordered, fun c hc hcb => ?_, h.bare⟩
  simpa [Function.update_of_ne hcb] using h.held c hc

/-- What a user gives back who holds `b`. If nobody else does, the node goes unless it has both branches; and the node
above it, if nobody holds it and `b` was a leaf of it. -/
structure Unlocked (t : RouteTable α) (b : List Bool) (t' : RouteTable α) : Prop where
  kept : Kept t'
  lock : t'.lock = Function.update t.lock b (t.lock b - 1)
  info : t'.info = t.info
  sub : ∀ q ∈ t'.top.nodes, q ∈ t.top.nodes
  stays : ∀ q ∈ t.top.nodes, q ≠ b → t.lock b ≠ 1 ∨ 0 < t.lock q ∨ ¬ HoldsLeaf b q t.top → q ∈ t'.top.nodes
  goes : ∀ q, t.lock b = 1 → HoldsLeaf b q t.top → t.lock q = 0 → q ∉ t'.top.nodes

/-- `route_unlock_node`, where the caller holds the node and nothing hangs on it that is left to nobody. -/
theorem Kept.unlockNode (h : Kept t) (hb : b ∈ t.top.nodes) (hlock : 0 < t.lock b)
    (hinfo : t.lock b = 1 → t.info b = none) : ∃ t', routeUnlockNode t b = some t' ∧ Unlocked t b t' := by
  by_cases hone : t.lock b = 1
  · obtain ⟨t', hrun, hrem⟩ := h.but.delete hb (by simp) (hinfo hone) le_rfl
    refine ⟨t', by simpa [routeUnlockNode, hone] using hrun, hrem.kept, by simp [hrem.lock, hone], hrem.info, hrem.sub,
      fun q hq hqb hstays => hrem.stays q hq hqb ?_, fun q _ hleaf hq => hrem.goes q hleaf ?_⟩
    · simpa [Function.update_of_ne hqb] using hstays.resolve_left (not_not_intro hone)
    · have hqb : q ≠ b := (mem_of_parent h.ordered hb (hleaf.parent h.ordered)).2
      simpa [Function.update_of_ne hqb] using hq
  · obtain ⟨n, hn⟩ : ∃ n, t.lock b = n + 2 := ⟨t.lock b - 2, by omega⟩
    obtain ⟨t', hrun, hkept, htop, hinf, -⟩ := h.unlock (b := b) (by omega)
    have ht' : { t with lock := Function.update t.lock b (n + 1) } = t' := by
      simpa [routeUnlockNode, hn] using hrun
    refine ⟨t', hrun, hkept, by rw [← ht', hn]; rfl, hinf, fun q hq => htop ▸ hq, fun q hq _ _ => htop ▸ hq,
      fun q hq => absurd hq hone⟩

end Delete

end Harry.Table
