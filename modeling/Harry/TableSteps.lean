import Harry.TableRefines

/-! Locks, what hangs on the nodes, and deletions in memory: each function of `lib/table.c` that does not allocate does
to the memory what the function on tables does to the table. -/

namespace Harry.Table

open Harry.Base Harry.Base.Radix

variable {α : Type} {f : Family} {h : Heap α} {L : Layout} {t t' : RouteTable α} {b q : List Bool} {i : Option α}

/-- A node with another lock and something else on it. -/
theorem Refines.write (hr : Refines f h L t) (hb : b ∈ t.top.nodes) {n : Node α} (hn : h.node (L.addr b) = some n)
    (x : Nat) (i : Option α) :
    Refines f (h.write (L.addr b) { n with lock := x, info := i }) L
      { t with lock := Function.update t.lock b x, info := Function.update t.info b i } where
  top := hr.top
  rep := by
    refine hr.rep.relabel fun q hq n' hn' hlock hinfo => ?_
    by_cases hqb : q = b
    · subst hqb
      obtain rfl := Option.some.inj (hn.symm.trans hn')
      simp [Heap.write]
    · have hne : L.addr q ≠ L.addr b := fun heq => hqb (hr.addr_inj q hq b hb heq)
      simp only [Heap.write, Function.update_of_ne hne, Function.update_of_ne hqb, ← hlock, ← hinfo]
      exact hn'
  addr_inj := hr.addr_inj
  key := hr.key
  family := hr.family
  only a n' hn' := by
    by_cases ha : a = L.addr b
    · exact ⟨b, hb, ha.symm⟩
    · exact hr.only a n' (by simpa [Heap.write, Function.update_of_ne ha] using hn')
  size := hr.size

theorem Refines.lock (hr : Refines f h L t) (ho : t.top.Ordered) (hb : b ∈ t.top.nodes) :
    ∃ h', h.routeLockNode (L.addr b) = some h' ∧ Refines f h' L (routeLockNode t b) := by
  obtain ⟨n, hn, -, hlock, hinfo, -⟩ := hr.exists_node ho hb
  have hw := hr.write hb hn (n.lock + 1) n.info
  have hinfo' : Function.update t.info b n.info = t.info := by rw [hinfo, Function.update_eq_self]
  have hlock' : Function.update t.lock b (n.lock + 1) = (routeLockNode t b).lock := by rw [hlock]; rfl
  rw [hinfo', hlock'] at hw
  exact ⟨_, by simp [Heap.routeLockNode, hn], hw⟩

theorem Refines.lockNode? (hr : Refines f h L t) (ho : t.top.Ordered) {o : Option (List Bool)}
    (hb : ∀ b ∈ o, b ∈ t.top.nodes) :
    ∃ h', h.lockNode? (o.map L.addr) = some h' ∧ Refines f h' L (t.lockNode? o) := by
  cases o with
  | none => exact ⟨h, rfl, hr⟩
  | some b => exact hr.lock ho (hb b rfl)

theorem Refines.setInfo (hr : Refines f h L t) (ho : t.top.Ordered) (hb : b ∈ t.top.nodes) (i : Option α) :
    ∃ h', h.setInfo (L.addr b) i = some h' ∧ Refines f h' L (t.setInfo b i) := by
  obtain ⟨n, hn, -, hlock, -, -⟩ := hr.exists_node ho hb
  have hw := hr.write hb hn n.lock i
  have hlock' : Function.update t.lock b n.lock = t.lock := by rw [hlock, Function.update_eq_self]
  rw [hlock'] at hw
  exact ⟨_, by simp [Heap.setInfo, hn], hw⟩

/-! ### Deletions -/

theorem putParent_spec {par child : Option Addr} (hchild : ∀ a ∈ child, (h.node a).isSome) :
    ∃ h', h.putParent par child = some h' ∧ h'.top = h.top ∧ h'.size = h.size ∧
      ∀ a, h'.node a = if child = some a then (h.node a).map fun n => { n with parent := par } else h.node a := by
  cases child with
  | none => exact ⟨h, rfl, rfl, rfl, fun a => by simp⟩
  | some c =>
      obtain ⟨n, hn⟩ := Option.isSome_iff_exists.mp (hchild c rfl)
      refine ⟨h.write c { n with parent := par }, by simp [Heap.putParent, hn], rfl, rfl, fun a => ?_⟩
      by_cases ha : c = a
      · subst ha
        simp [Heap.write, hn]
      · simp [Heap.write, ha, Function.update_of_ne (Ne.symm ha)]

theorem putChild_spec {node : Addr} {child par : Option Addr} (hpar : ∀ a ∈ par, (h.node a).isSome) :
    ∃ h', h.putChild node child par = some h' ∧ h'.top = (if par = none then child else h.top) ∧ h'.size = h.size ∧
      ∀ a, h'.node a = if par = some a then
        (h.node a).map fun n => if n.left = some node then { n with left := child } else { n with right := child }
        else h.node a := by
  cases par with
  | none => exact ⟨{ h with top := child }, rfl, rfl, rfl, fun a => by simp⟩
  | some p =>
      obtain ⟨n, hn⟩ := Option.isSome_iff_exists.mp (hpar p rfl)
      refine ⟨h.write p (if n.left = some node then { n with left := child } else { n with right := child }),
        by simp [Heap.putChild, hn], rfl, rfl, fun a => ?_⟩
      by_cases ha : p = a
      · subst ha
        simp [Heap.write, hn]
      · simp [Heap.write, ha, Function.update_of_ne (Ne.symm ha)]

/-- What a node hangs on. -/
theorem Replaces.hook {m : Hook} {s s' T T' : Radix} (hrep : Replaces m s s' none T T') (ho : T.Ordered)
    {l r : Radix} (hs : s = .node b l r) :
    m.map Prod.fst = T.parent b ∧ ∀ q bit, m = some (q, bit) → q ∈ T.nodes ∧ q ∉ s.nodes ∧
      ∃ lq rq, T.sub q = .node q lq rq ∧ (if bit then rq else lq) = s := by
  subst hs
  obtain ⟨rfl, rfl, -⟩ | ⟨q, bit, lq, rq, rfl, hsub, hbranch, -⟩ := hrep.branch ho
  · exact ⟨parent_root.symm, by simp⟩
  · have hoq := ho.sub q
    rw [hsub] at hoq
    refine ⟨(parent_of_sub ho hsub ?_).symm, fun q' bit' heq => ?_⟩
    · cases bit with
      | false => exact .inl (congrArg root? hbranch)
      | true => exact .inr (congrArg root? hbranch)
    · obtain ⟨rfl, rfl⟩ : q = q' ∧ bit = bit' := by simpa using heq
      refine ⟨mem_of_sub hsub, fun hq => ?_, lq, rq, hsub, hbranch⟩
      rw [← hbranch] at hq
      cases bit with
      | false => exact (ne_of_mem_left hoq hq).1 rfl
      | true => exact (ne_of_mem_right hoq hq).1 rfl

/-- The branch that takes the place of a node that is taken out. -/
theorem Refines.branch_cut (hr : Refines f h L t) (ho : t.top.Ordered) {l r : Radix} (hsub : t.top.sub b = .node b l r) :
    ∃ c, (if l = .nil then r else l) = c ∧ c.Ordered ∧ Rep h.node L t.lock t.info (some (L.addr b)) c ∧ b ∉ c.nodes ∧
      ∀ q ∈ c.nodes, q ∈ (Radix.node b l r).nodes := by
  have hosub := ho.sub b
  rw [hsub] at hosub
  obtain ⟨hrl, hrr⟩ := hr.rep.branches ho hsub
  by_cases hl : l = .nil
  · exact ⟨r, if_pos hl, hosub.2.2.2, hrr, fun h => (ne_of_mem_right hosub h).1 rfl, fun q hq => by simp [nodes, hq]⟩
  · exact ⟨l, if_neg hl, hosub.2.2.1, hrl, fun h => (ne_of_mem_left hosub h).1 rfl, fun q hq => by simp [nodes, hq]⟩

/-- No node hangs on both links of another one. -/
theorem Refines.left_ne (hr : Refines f h L t) (ho : t.top.Ordered) {q : List Bool} {lq l r : Radix}
    (hsubq : t.top.sub q = .node q lq (.node b l r)) : L.root lq ≠ some (L.addr b) := by
  have hoq := ho.sub q
  rw [hsubq] at hoq
  have hmem : ∀ x ∈ (t.top.sub q).nodes, x ∈ t.top.nodes := fun x hx => mem_of_mem_sub hx
  rw [hsubq] at hmem
  intro heq
  obtain ⟨x, hx, hxb⟩ := Option.map_eq_some_iff.mp heq
  rw [← head?_nodes] at hx
  have hxl := List.mem_of_mem_head? hx
  obtain rfl := hr.addr_inj x (hmem x (by simp [nodes, hxl])) b (hmem b (by simp [nodes])) hxb
  exact not_both (hoq.1 x hxl) (hoq.2.1 x (by simp [nodes]))

/-- A node without both branches is taken out: the branch that there is takes its place. -/
theorem Refines.cut (hr : Refines f h L t) (ho : t.top.Ordered) (hb : b ∈ t.top.nodes) (hfull : ¬ t.top.Full b)
    {l r : Radix} (hsub : t.top.sub b = .node b l r) :
    ∃ h₁ h₂, h.putParent ((t.top.parent b).map L.addr) (L.root (if l = .nil then r else l)) = some h₁ ∧
      h₁.putChild (L.addr b) (L.root (if l = .nil then r else l)) ((t.top.parent b).map L.addr) = some h₂ ∧
      Refines f (h₂.routeNodeFree (L.addr b)) L { t with top := splice b t.top } := by
  obtain ⟨m, l', r', hsub', hrep⟩ := replaces_splice ho hb hfull none
  obtain ⟨-, rfl, rfl⟩ := node.inj (hsub.symm.trans hsub')
  obtain ⟨hparent, hhook⟩ := Replaces.hook hrep ho rfl
  obtain ⟨c, hc, hoc, hrc, hcb, hcs⟩ := hr.branch_cut ho hsub
  rw [hc] at hrep ⊢
  have hmem : ∀ q ∈ (Radix.node b l r).nodes, q ∈ t.top.nodes := fun q hq => mem_of_mem_sub (hsub ▸ hq)
  have hne : ∀ p ∈ t.top.nodes, ∀ q ∈ t.top.nodes, p ≠ q → L.addr p ≠ L.addr q := fun p hp q hq hpq heq =>
    hpq (hr.addr_inj p hp q hq heq)
  have hroot : ∀ a, L.root c = some a → ∃ x ∈ c.nodes, c.root? = some x ∧ a = L.addr x := by
    intro a ha
    cases c with
    | nil => cases ha
    | node x lx rx => exact ⟨x, by simp [nodes], rfl, (Option.some.inj ha).symm⟩
  have hpar : ∀ a, (t.top.parent b).map L.addr = some a → ∃ q bit, m = some (q, bit) ∧ a = L.addr q := by
    intro a ha
    rw [← hparent] at ha
    cases m with
    | none => cases ha
    | some x => exact ⟨x.1, x.2, rfl, (Option.some.inj ha).symm⟩
  have hsome : ∀ q ∈ t.top.nodes, (h.node (L.addr q)).isSome := fun q hq => by
    obtain ⟨n, hn, -⟩ := hr.exists_node ho hq
    simp [hn]
  obtain ⟨h₁, hput₁, htop₁, hsize₁, hnode₁⟩ := @putParent_spec α h ((t.top.parent b).map L.addr) (L.root c) (by
    intro a ha
    obtain ⟨x, hx, -, rfl⟩ := hroot a ha
    exact hsome x (hmem x (hcs x hx)))
  have hpar_ne : ∀ q bit, m = some (q, bit) → L.root c ≠ some (L.addr q) := by
    intro q bit hm heq
    obtain ⟨hq, hqs, -⟩ := hhook q bit hm
    obtain ⟨x, hx, -, hax⟩ := hroot _ heq
    exact hne q hq x (hmem x (hcs x hx)) (fun hqx => hqs (hqx ▸ hcs x hx)) hax
  obtain ⟨h₂, hput₂, htop₂, hsize₂, hnode₂⟩ := @putChild_spec α h₁ (L.addr b) (L.root c) ((t.top.parent b).map L.addr) (by
    intro a ha
    obtain ⟨q, bit, hm, rfl⟩ := hpar a ha
    rw [hnode₁, if_neg (hpar_ne q bit hm)]
    exact hsome q (hhook q bit hm).1)
  refine ⟨h₁, h₂, hput₁, hput₂, ?_⟩
  have hfree : ∀ q ∈ t.top.nodes, q ≠ b → (h₂.routeNodeFree (L.addr b)).node (L.addr q) = h₂.node (L.addr q) :=
    fun q hq hqb => Function.update_of_ne (hne q hq b hb hqb) _ _
  have hrootN : ∀ x ∈ c.root?, (h₂.routeNodeFree (L.addr b)).node (L.addr x) =
      (h.node (L.addr x)).map fun n => { n with parent := L.hook m } := by
    intro x hx
    have hxc : x ∈ c.nodes := by
      rw [← head?_nodes] at hx
      exact List.mem_of_mem_head? hx
    have hxt := hmem x (hcs x hxc)
    have hlink : L.root c = some (L.addr x) := congrArg (Option.map L.addr) hx
    have hup : (t.top.parent b).map L.addr ≠ some (L.addr x) := by
      intro heq
      obtain ⟨q, bit, hm, -⟩ := hpar _ heq
      obtain ⟨hq, hqs, -⟩ := hhook q bit hm
      have hqx : L.addr x = L.addr q := by
        rw [← hparent, hm] at heq
        exact (Option.some.inj heq).symm
      exact hqs (hr.addr_inj x hxt q hq hqx ▸ hcs x hxc)
    rw [hfree x hxt fun hxb => hcb (hxb ▸ hxc), hnode₂, if_neg hup, hnode₁, if_pos hlink, ← hparent]
    cases m <;> rfl
  have hhookN : ∀ q bit, m = some (q, bit) → (h₂.routeNodeFree (L.addr b)).node (L.addr q) =
      (h.node (L.addr q)).map fun n => n.putLink bit (L.root c) := by
    intro q bit hm
    obtain ⟨hq, hqs, lq, rq, hsubq, hbranch⟩ := hhook q bit hm
    have hqb : q ≠ b := fun hqb => hqs (by simp [hqb, nodes])
    have hup : (t.top.parent b).map L.addr = some (L.addr q) := by
      rw [← hparent, hm]
      rfl
    rw [hfree q hq hqb, hnode₂, if_pos hup, hnode₁, if_neg (hpar_ne q bit hm), hr.node ho hsubq]
    cases bit with
    | false =>
        obtain rfl : lq = .node b l r := hbranch
        simp [Layout.root, root?, Node.putLink]
    | true =>
        obtain rfl : rq = .node b l r := hbranch
        simp [hr.left_ne ho hsubq, Node.putLink]
  have hotherN : ∀ q ∈ t.top.nodes, q ≠ b → c.root? ≠ some q → (∀ bit, m ≠ some (q, bit)) →
      (h₂.routeNodeFree (L.addr b)).node (L.addr q) = h.node (L.addr q) := by
    intro q hq hqb hqc hqm
    have hup : (t.top.parent b).map L.addr ≠ some (L.addr q) := by
      intro heq
      obtain ⟨q', bit, hm, hax⟩ := hpar _ heq
      exact hqm bit (hr.addr_inj q hq q' (hhook q' bit hm).1 hax ▸ hm)
    have hdown : L.root c ≠ some (L.addr q) := by
      intro heq
      obtain ⟨x, hx, hroot, hax⟩ := hroot _ heq
      exact hqc (hr.addr_inj q hq x (hmem x (hcs x hx)) hax ▸ hroot)
    rw [hfree q hq hqb, hnode₂, if_neg hup, hnode₁, if_neg hdown]
  have hmemS : ∀ q, q ∈ (splice b t.top).nodes ↔ q ≠ b ∧ q ∈ t.top.nodes := fun q => mem_splice ho hb hfull
  have hnot : ∀ q bit, m = some (q, bit) → q ≠ b ∧ ∀ x ∈ c.nodes, q ≠ x := fun q bit hm =>
    ⟨fun hqb => (hhook q bit hm).2.1 (by simp [hqb, nodes]), fun x hx hqx => (hhook q bit hm).2.1 (hcs q (hqx ▸ hx))⟩
  refine ⟨?_, ?_, fun p hp q hq => hr.addr_inj p ((hmemS p).mp hp).2 q ((hmemS q).mp hq).2,
    fun p hp => hr.key p ((hmemS p).mp hp).2, fun p hp => hr.family p ((hmemS p).mp hp).2, fun a n hn => ?_, ?_⟩
  · show h₂.top = L.root (splice b t.top)
    rw [htop₂]
    obtain ⟨rfl, -, hsplice⟩ | ⟨q, bit, -, -, rfl, -, -, hroot'⟩ := hrep.branch ho
    · rw [← hparent, ← hsplice]
      rfl
    · rw [← hparent, if_neg (by simp), htop₁, hr.top]
      exact (congrArg (Option.map L.addr) hroot').symm
  · refine Rep.replaces hrep hr.rep ho ?_ (fun q bit hm _ => hhookN q bit hm) fun q hq hqs hqm => ?_
    · refine hrc.reparent hoc hrootN fun q hq hqr => ?_
      refine hotherN q (hmem q (hcs q hq)) (fun hqb => hcb (hqb ▸ hq)) hqr fun bit hm => ?_
      exact (hnot q bit hm).2 q hq rfl
    · refine hotherN q hq (fun hqb => hqs (by simp [hqb, nodes])) (fun hqr => ?_) hqm
      rw [← head?_nodes] at hqr
      exact hqs (hcs q (List.mem_of_mem_head? hqr))
  · have hab : a ≠ L.addr b := by
      rintro rfl
      simp [Heap.routeNodeFree] at hn
    cases ha : h.node a with
    | none => simp [Heap.routeNodeFree, Function.update_of_ne hab, hnode₂, hnode₁, ha] at hn
    | some n' =>
        obtain ⟨q, hq, rfl⟩ := hr.only a n' ha
        exact ⟨q, (hmemS q).mpr ⟨fun hqb => hab (by rw [hqb]), hq⟩, rfl⟩
  · show h₂.size - 1 = _
    rw [hsize₂, hsize₁, hr.size, nodes_splice ho hb hfull, List.length_erase_of_mem hb]

/-- `route_node_delete`, with as many rounds. -/
theorem Refines.delete (hr : Refines f h L t) (hk : KeptBut t b) (hb : b ∈ t.top.nodes) (hlock : t.lock b = 0)
    (hinfo : t.info b = none) {n : Nat} (hrun : routeNodeDelete n t b = some t') :
    ∃ h', h.routeNodeDelete n (L.addr b) = some h' ∧ Refines f h' L t' := by
  induction n generalizing h t b with
  | zero => cases hrun
  | succ n ih =>
      obtain ⟨l, r, hsub⟩ := exists_sub hk.ordered hb
      have hroot : ∀ s : Radix, L.root s ≠ none ↔ s ≠ .nil := by
        intro s
        cases s <;> simp [Layout.root, root?]
      have hbranch : (if L.root l ≠ none then L.root l else L.root r) = L.root (if l = .nil then r else l) := by
        by_cases hl : l = .nil
        · rw [if_pos hl, if_neg fun hne => (hroot l).mp hne hl]
        · rw [if_neg hl, if_pos ((hroot l).mpr hl)]
      rw [Heap.routeNodeDelete, hr.node hk.ordered hsub]
      simp only [Option.bind_eq_bind, Option.bind_some, hlock, hinfo, ne_eq, not_true_eq_false, or_self, if_false]
      by_cases hfull : t.top.Full b
      · obtain ⟨l', r', hsub', hl, hr'⟩ := hfull.sub hk.ordered
        obtain ⟨-, rfl, rfl⟩ := node.inj (hsub.symm.trans hsub')
        rw [routeNodeDelete_full hk.ordered hlock hinfo hfull] at hrun
        obtain rfl := Option.some.inj hrun
        exact ⟨h, by rw [if_pos ⟨(hroot l).mpr hl, (hroot r).mpr hr'⟩]; rfl, hr⟩
      · have hboth : ¬ (L.root l ≠ none ∧ L.root r ≠ none) := fun hne =>
          hfull (full_of_sub hsub ((hroot l).mp hne.1) ((hroot r).mp hne.2))
        obtain ⟨h₁, h₂, hput₁, hput₂, hcut⟩ := hr.cut hk.ordered hb hfull hsub
        rw [routeNodeDelete_splice hk.ordered hb hlock hinfo hfull] at hrun
        rw [if_neg hboth]
        simp only [ne_eq] at hbranch
        rw [hbranch, hput₁, Option.bind_some, hput₂, Option.bind_some]
        cases hpar : t.top.parent b with
        | none =>
            rw [hpar] at hrun
            obtain rfl := Option.some.inj hrun
            exact ⟨_, rfl, hcut⟩
        | some p =>
            obtain ⟨hpt, hpb⟩ := mem_of_parent hk.ordered hb hpar
            have hbut := hk.splice hb hinfo hfull p (.inr hpar)
            have hps : p ∈ (splice b t.top).nodes := (mem_splice hk.ordered hb hfull).mpr ⟨hpb, hpt⟩
            obtain ⟨np, hnp, -, hplock, -⟩ := hcut.exists_node hbut.ordered hps
            rw [hpar] at hrun
            simp only [Option.map_some, hnp, Option.bind_some, hplock]
            simp only [Option.elim_some] at hrun
            split_ifs at hrun ⊢ with hp
            · obtain hpos | ⟨hpinfo, -⟩ := hk.held p hpt hpb
              · omega
              · exact ih hcut hbut hps hp hpinfo hrun
            · obtain rfl := Option.some.inj hrun
              exact ⟨_, rfl, hcut⟩

/-- `route_unlock_node`. -/
theorem Refines.unlock (hr : Refines f h L t) (hk : Kept t) (hb : b ∈ t.top.nodes) (hinfo : t.lock b = 1 → t.info b = none)
    (hrun : routeUnlockNode t b = some t') :
    ∃ h', h.routeUnlockNode (L.addr b) = some h' ∧ Refines f h' L t' := by
  obtain ⟨n, hn, -, hlock, hni, -⟩ := hr.exists_node hk.ordered hb
  have hw := hr.write hb hn (n.lock - 1) n.info
  have hinfo' : Function.update t.info b n.info = t.info := by rw [hni, Function.update_eq_self]
  rw [hinfo', hlock] at hw
  rw [Heap.routeUnlockNode, hn]
  simp only [Option.bind_eq_bind, Option.bind_some, hlock]
  cases hl : t.lock b with
  | zero => simp [routeUnlockNode, hl] at hrun
  | succ x =>
      rw [hl] at hw
      simp only [Nat.add_sub_cancel] at hw
      rw [if_neg (Nat.succ_ne_zero x), Nat.add_sub_cancel]
      cases x with
      | zero =>
          rw [if_pos rfl]
          simp only [routeUnlockNode, hl] at hrun
          have hdel := hw.delete hk.but hb (by simp) (hinfo hl) hrun
          rw [← hw.size] at hdel
          exact hdel
      | succ x =>
          rw [if_neg (by omega)]
          simp only [routeUnlockNode, hl] at hrun
          obtain rfl := Option.some.inj hrun
          exact ⟨_, rfl, hw⟩

end Harry.Table
