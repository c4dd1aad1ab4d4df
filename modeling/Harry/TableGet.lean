import Harry.TableSteps

/-! `route_node_get` in memory. The walk ends at the node of the prefix, or in front of the subtree that an insertion
replaces (`placeFrom_spec`). A new node is a leaf, or it is put above a node that is there (`Refines.addLeaf`,
`Refines.addAbove`); where the prefix and that node have only their beginning in common there are two of them. -/

namespace Harry.Table

open Harry.Base Harry.Base.Radix

variable {α : Type} {f : Family} {h h' : Heap α} {L : Layout} {t t' : RouteTable α} {b q x : List Bool} {a : Addr}
  {m : Hook} {s s' T' : Radix} {px : Prefix}

/-- A layout with the address and the bytes of a new node. -/
def Layout.add (L : Layout) (x : List Bool) (a : Addr) (px : Prefix) : Layout :=
  ⟨Function.update L.addr x a, Function.update L.pre x px⟩

/-- A table with a new node, which nobody holds yet. -/
def RouteTable.grow (t : RouteTable α) (x : List Bool) (top : Radix) : RouteTable α :=
  ⟨top, Function.update t.info x none, Function.update t.lock x 0⟩

theorem Replaces.hook_mem (hrep : Replaces m s s' none b' T') (ho : b'.Ordered) {bit : Bool} (hm : m = some (q, bit)) :
    q ∈ b'.nodes := by
  obtain ⟨rfl, -, -⟩ | ⟨q', bit', lq, rq, rfl, hsub, -, -⟩ := hrep.branch ho
  · cases hm
  · obtain ⟨rfl, -⟩ : q' = q ∧ bit' = bit := by simpa using hm
    exact mem_of_sub hsub

/-- One new node comes to a table: a subtree is replaced by one with the node on top. -/
theorem Refines.grow (hr : Refines f h L t) (ho : t.top.Ordered) (hrep : Replaces m s s' none t.top T')
    (ho' : T'.Ordered) (hnodes : s'.nodes.Perm (x :: s.nodes)) (hroot : s'.root? = some x) (ha : h.node a = none)
    (hkey : px.key = x) (hfam : px.family = f) (htop : h'.top = if m = none then some a else h.top)
    (hsize : h'.size = h.size + 1)
    (hs : Rep h'.node (L.add x a px) (Function.update t.lock x 0) (Function.update t.info x none) (L.hook m) s')
    (hhook : ∀ q bit, m = some (q, bit) →
      h'.node (L.addr q) = (h.node (L.addr q)).map fun n => n.putLink bit (some a))
    (hother : ∀ q ∈ t.top.nodes, q ∉ s.nodes → (∀ bit, m ≠ some (q, bit)) → h'.node (L.addr q) = h.node (L.addr q))
    (honly : ∀ c n, h'.node c = some n → c = a ∨ (h.node c).isSome) :
    Refines f h' (L.add x a px) (t.grow x T') := by
  obtain ⟨hperm, hx⟩ := hrep.new_node ho' hnodes
  have hmem : ∀ q, q ∈ T'.nodes ↔ q = x ∨ q ∈ t.top.nodes := fun q => by rw [hperm.mem_iff, List.mem_cons]
  have hold : ∀ q ∈ t.top.nodes, q ≠ x := fun q hq hqx => hx (hqx ▸ hq)
  have haddr : ∀ q ∈ t.top.nodes, (L.add x a px).addr q = L.addr q := fun q hq => Function.update_of_ne (hold q hq) _ _
  have hpre : ∀ q ∈ t.top.nodes, (L.add x a px).pre q = L.pre q := fun q hq => Function.update_of_ne (hold q hq) _ _
  have hself : (L.add x a px).addr x = a := Function.update_self _ _ _
  have hfresh : ∀ q ∈ t.top.nodes, L.addr q ≠ a := by
    intro q hq heq
    obtain ⟨n, hn, -⟩ := hr.exists_node ho hq
    rw [heq, ha] at hn
    cases hn
  have hlink : (L.add x a px).root s' = some a := by rw [Layout.root, hroot, Option.map_some, hself]
  have hhook' : (L.add x a px).hook m = L.hook m := by
    cases m with
    | none => rfl
    | some y => exact congrArg some (haddr y.1 (Replaces.hook_mem hrep ho rfl))
  refine ⟨?_, ?_, fun p hp q hq heq => ?_, fun p hp => ?_, fun p hp => ?_, fun c n hn => ?_, ?_⟩
  · rw [htop]
    obtain ⟨rfl, -, rfl⟩ | ⟨q, bit, -, -, rfl, -, -, hroot'⟩ := hrep.branch ho
    · rw [if_pos rfl]
      exact hlink.symm
    · rw [if_neg (by simp), hr.top]
      show L.root t.top = Option.map _ T'.root?
      rw [hroot']
      exact (root_congr haddr).symm
  · have hrep₀ : Rep h.node (L.add x a px) (Function.update t.lock x 0) (Function.update t.info x none) none t.top :=
      hr.rep.congr (fun _ _ => rfl) haddr hpre (fun q hq => Function.update_of_ne (hold q hq) _ _)
        fun q hq => Function.update_of_ne (hold q hq) _ _
    refine Rep.replaces hrep hrep₀ ho (hhook' ▸ hs) (fun q bit hm hq => ?_) fun q hq hqs hqm => ?_
    · rw [haddr q hq, hlink]
      exact hhook q bit hm
    · rw [haddr q hq]
      exact hother q hq hqs hqm
  · obtain hpx | hpt := (hmem p).mp hp <;> obtain hqx | hqt := (hmem q).mp hq
    · rw [hpx, hqx]
    · rw [hpx, hself, haddr q hqt] at heq
      exact absurd heq.symm (hfresh q hqt)
    · rw [hqx, hself, haddr p hpt] at heq
      exact absurd heq (hfresh p hpt)
    · rw [haddr p hpt, haddr q hqt] at heq
      exact hr.addr_inj p hpt q hqt heq
  · obtain rfl | hp := (hmem p).mp hp
    · exact (congrArg Prefix.key (Function.update_self _ _ _)).trans hkey
    · rw [hpre p hp]
      exact hr.key p hp
  · obtain rfl | hp := (hmem p).mp hp
    · exact (congrArg Prefix.family (Function.update_self _ _ _)).trans hfam
    · rw [hpre p hp]
      exact hr.family p hp
  · obtain rfl | hc := honly c n hn
    · exact ⟨x, (hmem x).mpr (.inl rfl), hself⟩
    · obtain ⟨n', hn'⟩ := Option.isSome_iff_exists.mp hc
      obtain ⟨q, hq, rfl⟩ := hr.only c n' hn'
      exact ⟨q, (hmem q).mpr (.inr hq), haddr q hq⟩
  · rw [hsize, hr.size]
    exact hperm.length_eq.symm

theorem prefixBit_of_start {p n : Prefix} {bit : Bool} (hq : n.key ++ [bit] <+: p.key) :
    prefixBit p.u n.prefixlen = bit := by
  have hlt : n.prefixlen < p.prefixlen := Nat.lt_of_succ_le (by simpa using hq.length_le)
  rw [prefixBit_eq, ← bitAt_key hlt, ← n.length_key]
  exact bitAt_of_start hq

theorem setLink_spec {a new : Addr} {n c : Node α} (ha : h.node a = some n) (hc : h.node new = some c) (hne : a ≠ new) :
    ∃ h', h.setLink a new = some h' ∧ h'.top = h.top ∧ h'.size = h.size ∧
      h'.node a = some (n.putLink (prefixBit c.p.u n.p.prefixlen) (some new)) ∧
      h'.node new = some { c with parent := some a } ∧ ∀ b, b ≠ a → b ≠ new → h'.node b = h.node b := by
  refine ⟨(h.write a (n.putLink (prefixBit c.p.u n.p.prefixlen) (some new))).write new { c with parent := some a },
    ?_, rfl, rfl, ?_, by simp [Heap.write], fun b hba hbn => ?_⟩
  · simp [Heap.setLink, Heap.write, ha, hc, Function.update_of_ne hne.symm]
  · simp [Heap.write, Function.update_of_ne hne]
  · simp [Heap.write, Function.update_of_ne hba, Function.update_of_ne hbn]

theorem linkBelow_spec {matched : Option Addr} {new : Addr} {c : Node α} (hc : h.node new = some c)
    (hpar : c.parent = none) (hm : ∀ a ∈ matched, (h.node a).isSome) (hne : matched ≠ some new) :
    ∃ h', h.linkBelow matched new = some h' ∧ h'.top = (if matched = none then some new else h.top) ∧
      h'.size = h.size ∧ h'.node new = some { c with parent := matched } ∧
      (∀ a, matched = some a → h'.node a =
        (h.node a).map fun n => n.putLink (prefixBit c.p.u n.p.prefixlen) (some new)) ∧
      ∀ b, b ≠ new → matched ≠ some b → h'.node b = h.node b := by
  cases matched with
  | none => exact ⟨_, rfl, rfl, rfl, by rw [← hpar]; exact hc, by simp, fun b _ _ => rfl⟩
  | some a =>
      obtain ⟨n, hn⟩ := Option.isSome_iff_exists.mp (hm a rfl)
      obtain ⟨h', hrun, htop, hsize, ha, hnew, hother⟩ := setLink_spec hn hc fun heq => hne (by rw [heq])
      refine ⟨h', hrun, by rw [if_neg (by simp), htop], hsize, hnew, fun a' ha' => ?_, fun b hb hba => ?_⟩
      · obtain rfl := Option.some.inj ha'
        rw [ha, hn]
        rfl
      · exact hother b (fun heq => hba (by rw [heq])) hb

/-- What a new node is put below. -/
theorem Refines.hook_node (hr : Refines f h L t) (ho : t.top.Ordered) (hrep : Replaces m s s' none t.top T')
    {c : Addr} (hc : L.hook m = some c) :
    ∃ q bit n, m = some (q, bit) ∧ c = L.addr q ∧ q ∈ t.top.nodes ∧ h.node c = some n ∧ n.p.key = q := by
  cases m with
  | none => cases hc
  | some y =>
      obtain rfl : L.addr y.1 = c := Option.some.inj hc
      have hq : y.1 ∈ t.top.nodes := Replaces.hook_mem hrep ho rfl
      obtain ⟨n, hn, hp, -⟩ := hr.exists_node ho hq
      exact ⟨y.1, y.2, n, rfl, rfl, hq, hn, by rw [hp, hr.key y.1 hq]⟩

/-- `route_node_set` and the link to the new node, which is a leaf. -/
theorem Refines.addLeaf (hr : Refines f h L t) (ho : t.top.Ordered) {p : Prefix}
    (hrep : Replaces m .nil (.node p.key .nil .nil) none t.top T') (ho' : T'.Ordered) (ha : h.node a = none)
    (hfam : p.family = f) (hlen : p.prefixlen ≤ 8 * f.bytes) (hbit : ∀ q bit, m = some (q, bit) → q ++ [bit] <+: p.key) :
    ∃ h', (h.routeNodeSet a p).linkBelow (L.hook m) a = some h' ∧
      Refines f h' (L.add p.key a (prefixCopy Heap.zeroPrefix p)) (t.grow p.key T') := by
  have hkey : (prefixCopy Heap.zeroPrefix p).key = p.key := key_prefixCopy (hfam ▸ hlen)
  have hnew : (h.routeNodeSet a p).node a = some { Heap.zero with p := prefixCopy Heap.zeroPrefix p } := by
    simp [Heap.routeNodeSet, Heap.write]
  have hsame : ∀ c, c ≠ a → (h.routeNodeSet a p).node c = h.node c := by
    intro c hc
    simp [Heap.routeNodeSet, Heap.write, Heap.routeNodeNew, Function.update_of_ne hc]
  have hne : ∀ c n, h.node c = some n → c ≠ a := by
    rintro c n hn rfl
    rw [ha] at hn
    cases hn
  have hmatched : ∀ c ∈ L.hook m, ((h.routeNodeSet a p).node c).isSome := by
    intro c hc
    obtain ⟨q, bit, n, -, -, -, hn, -⟩ := hr.hook_node ho hrep hc
    rw [hsame c (hne c n hn), hn]
    rfl
  have hnot : L.hook m ≠ some a := by
    intro heq
    obtain ⟨q, bit, n, -, -, -, hn, -⟩ := hr.hook_node ho hrep heq
    exact hne a n hn rfl
  obtain ⟨h', hrun, htop, hsize, hself, hlink, hother⟩ := linkBelow_spec hnew rfl hmatched hnot
  refine ⟨h', hrun, hr.grow ho hrep ho' (by simp [nodes]) rfl ha hkey hfam ?_ hsize ⟨?_, trivial, trivial⟩
    (fun q bit hm => ?_) (fun q hq _ hqm => ?_) fun c n hn => ?_⟩
  · rw [htop]
    cases m <;> rfl
  · have haddr : (L.add p.key a (prefixCopy Heap.zeroPrefix p)).addr p.key = a := Function.update_self _ _ _
    rw [haddr, hself]
    simp [Layout.add, Layout.root, root?, Heap.zero]
  · subst hm
    obtain ⟨q', bit', n, hqq, -, -, hn, hnk⟩ := hr.hook_node ho hrep rfl
    obtain ⟨rfl, rfl⟩ : q = q' ∧ bit = bit' := by simpa using hqq
    rw [hlink _ rfl, hsame _ (hne _ n hn), hn]
    have hb : prefixBit (prefixCopy Heap.zeroPrefix p).u n.p.prefixlen = bit := by
      refine prefixBit_of_start ?_
      rw [hnk, hkey]
      exact hbit q bit rfl
    simp [hb]
  · obtain ⟨n, hn, -⟩ := hr.exists_node ho hq
    rw [hother _ (hne _ n hn), hsame _ (hne _ n hn)]
    intro heq
    obtain ⟨q', bit, -, rfl, hqq, hqt, -⟩ := hr.hook_node ho hrep heq
    exact hqm bit (by rw [hr.addr_inj q hq q' hqt hqq])
  · by_cases hc : c = a
    · exact .inl hc
    · refine .inr ?_
      by_cases hcm : L.hook m = some c
      · obtain ⟨q, bit, n', -, -, -, hn', -⟩ := hr.hook_node ho hrep hcm
        simp [hn']
      · rw [hother c hc hcm, hsame c hc] at hn
        simp [hn]

/-- A new node above one that is there, which it is linked to before it is linked itself. -/
theorem Refines.addAbove (hr : Refines f h L t) (ho : t.top.Ordered) {c : List Bool} {bit : Bool} (hc : s.root? = some c)
    (hrep : Replaces m s (setLink s (.node x .nil .nil)) none t.top T') (ho' : T'.Ordered) (ha : h.node a = none)
    (hkey : px.key = x) (hfam : px.family = f) (hside : x ++ [bit] <+: c)
    (hbit : ∀ q bit, m = some (q, bit) → q ++ [bit] <+: x) :
    ∃ h₁ h₂, ((h.routeNodeNew a).write a { Heap.zero with p := px }).setLink a (L.addr c) = some h₁ ∧
      h₁.linkBelow (L.hook m) a = some h₂ ∧ Refines f h₂ (L.add x a px) (t.grow x T') := by
  have hset : setLink s (.node x .nil .nil) = if bit then .node x .nil s else .node x s .nil := by
    simp only [setLink, hc, Option.getD_some, bitAt_of_start hside]
  have hne : ∀ c n, h.node c = some n → c ≠ a := by
    rintro c n hn rfl
    rw [ha] at hn
    cases hn
  have hrs : Rep h.node L t.lock t.info (L.hook m) s := Rep.of_replaces hrep hr.rep
  obtain ⟨l, r, rfl⟩ : ∃ l r, s = .node c l r := by
    cases s with
    | nil => cases hc
    | node p l r => exact ⟨l, r, by rw [← Option.some.inj hc]⟩
  obtain ⟨xs, ys, hxs, -⟩ := hrep.nodes
  have hmem : ∀ q ∈ (Radix.node c l r).nodes, q ∈ t.top.nodes := fun q hq => by
    rw [hxs]
    simp [hq]
  have hct : c ∈ t.top.nodes := hmem c (by simp [nodes])
  obtain ⟨nc, hnc, hncp, -⟩ := hr.exists_node ho hct
  have hca := hne _ _ hnc
  -- the first link
  have hnew : ((h.routeNodeNew a).write a { Heap.zero with p := px }).node a = some { Heap.zero with p := px } := by
    simp [Heap.write]
  have hsame : ∀ c, c ≠ a → ((h.routeNodeNew a).write a { Heap.zero with p := px }).node c = h.node c := by
    intro c hc
    simp [Heap.write, Heap.routeNodeNew, Function.update_of_ne hc]
  obtain ⟨h₁, hrun₁, htop₁, hsize₁, hself₁, hchild₁, hother₁⟩ :=
    setLink_spec hnew ((hsame _ hca).trans hnc) hca.symm
  have hb : prefixBit nc.p.u px.prefixlen = bit :=
    prefixBit_of_start (p := nc.p) (n := px) (by rw [hkey, hncp, hr.key c hct]; exact hside)
  rw [hb] at hself₁
  -- the link to the node that matched
  have hmatched : ∀ d, L.hook m = some d → d ≠ a ∧ d ≠ L.addr c := by
    intro d hd
    obtain ⟨q, bit', n, hm, rfl, hq, hn, -⟩ := hr.hook_node ho hrep hd
    refine ⟨hne _ n hn, fun heq => ?_⟩
    obtain rfl := hr.addr_inj q hq c hct heq
    exact (Replaces.hook hrep ho rfl).2 q bit' hm |>.2.1 (by simp [nodes])
  have hthere : ∀ d ∈ L.hook m, (h₁.node d).isSome := by
    intro d hd
    obtain ⟨hda, hdc⟩ := hmatched d hd
    obtain ⟨q, bit', n, -, -, -, hn, -⟩ := hr.hook_node ho hrep hd
    rw [hother₁ d hda hdc, hsame d hda, hn]
    rfl
  obtain ⟨h₂, hrun₂, htop₂, hsize₂, hself₂, hlink₂, hother₂⟩ :=
    linkBelow_spec hself₁ (by cases bit <;> rfl) hthere fun heq => (hmatched a heq).1 rfl
  have hpx : (Node.putLink { Heap.zero with p := px } bit (some (L.addr c)) : Node α).p = px := by cases bit <;> rfl
  rw [hpx] at hlink₂
  have hrest : ∀ q ∈ t.top.nodes, q ≠ c → (∀ bit, m ≠ some (q, bit)) → h₂.node (L.addr q) = h.node (L.addr q) := by
    intro q hq hqc hqm
    obtain ⟨n, hn, -⟩ := hr.exists_node ho hq
    have hqa := hne _ _ hn
    have hqc' : L.addr q ≠ L.addr c := fun heq => hqc (hr.addr_inj q hq c hct heq)
    rw [hother₂ _ hqa, hother₁ _ hqa hqc', hsame _ hqa]
    intro heq
    obtain ⟨q', bit, -, rfl, hqq, hqt, -⟩ := hr.hook_node ho hrep heq
    exact hqm bit (by rw [hr.addr_inj q hq q' hqt hqq])
  refine ⟨h₁, h₂, hrun₁, hrun₂, hr.grow ho hrep ho' ?_ ?_ ha hkey hfam ?_ ?_ ?_ (fun q bit' hm => ?_)
    (fun q hq hqs hqm => hrest q hq (fun hqc => hqs (by simp [hqc, nodes])) hqm) fun d n hn => ?_⟩
  · rw [hset]
    cases bit <;> simp [nodes]
  · rw [hset]
    cases bit <;> rfl
  · rw [htop₂, htop₁]
    cases m <;> rfl
  · rw [hsize₂, hsize₁]
    rfl
  · have hos := hrep.ordered ho
    have hxs : ∀ q ∈ (Radix.node c l r).nodes, q ≠ x := by
      rintro q hq rfl
      have hcq := (hos.prefix_of_root List.prefix_rfl q hq).length_le
      have hqc : q.length + 1 ≤ c.length := by simpa using hside.length_le
      omega
    have hadd : Rep h.node (L.add x a px) (Function.update t.lock x 0) (Function.update t.info x none) (L.hook m)
        (.node c l r) :=
      hrs.congr (fun _ _ => rfl) (fun q hq => Function.update_of_ne (hxs q hq) _ _)
        (fun q hq => Function.update_of_ne (hxs q hq) _ _) (fun q hq => Function.update_of_ne (hxs q hq) _ _)
        fun q hq => Function.update_of_ne (hxs q hq) _ _
    have haddr : ∀ q ∈ (Radix.node c l r).nodes, (L.add x a px).addr q = L.addr q := fun q hq =>
      Function.update_of_ne (hxs q hq) _ _
    have hself : (L.add x a px).addr x = a := Function.update_self _ _ _
    have hcs : c ∈ (Radix.node c l r).nodes := by simp [nodes]
    have hbelow : Rep h₂.node (L.add x a px) (Function.update t.lock x 0) (Function.update t.info x none) (some a)
        (.node c l r) := by
      refine hadd.reparent hos (fun q hq => ?_) fun q hq hqc => ?_
      · obtain rfl : c = q := Option.some.inj hq
        rw [haddr c hcs, hother₂ _ hca fun heq => (hmatched _ heq).2 rfl, hchild₁, hnc]
        rfl
      · rw [haddr q hq]
        refine hrest q (hmem q hq) (fun hqc' => hqc (by rw [hqc']; rfl)) fun bit' hm => ?_
        exact (Replaces.hook hrep ho rfl).2 q bit' hm |>.2.1 hq
    have hroot : (L.add x a px).root (.node c l r) = some (L.addr c) := congrArg some (haddr c hcs)
    rw [hset]
    cases bit with
    | false =>
        refine ⟨?_, hself.symm ▸ hbelow, trivial⟩
        rw [hself, hself₂, hroot]
        simp [Node.putLink, Heap.zero, Layout.add, Layout.root, root?]
    | true =>
        refine ⟨?_, trivial, hself.symm ▸ hbelow⟩
        rw [hself, hself₂, hroot]
        simp [Node.putLink, Heap.zero, Layout.add, Layout.root, root?]
  · subst hm
    obtain ⟨q', bit'', n, hqq, -, -, hn, hnk⟩ := hr.hook_node ho hrep rfl
    obtain ⟨rfl, rfl⟩ : q = q' ∧ bit' = bit'' := by simpa using hqq
    obtain ⟨hda, hdc⟩ := hmatched _ rfl
    rw [hlink₂ _ rfl, hother₁ _ hda hdc, hsame _ hda, hn]
    have hb' : prefixBit px.u n.p.prefixlen = bit' := by
      refine prefixBit_of_start ?_
      rw [hnk, hkey]
      exact hbit q bit' rfl
    simp [hb']
  · by_cases hda : d = a
    · exact .inl hda
    · refine .inr ?_
      by_cases hdm : L.hook m = some d
      · obtain ⟨q, bit, n', -, -, -, hn', -⟩ := hr.hook_node ho hrep hdm
        simp [hn']
      · by_cases hdc : d = L.addr c
        · rw [hdc, hnc]
          rfl
        · rw [hother₂ d hda hdm, hother₁ d hda hdc, hsame d hda] at hn
          simp [hn]

/-! ### The walk -/

theorem insert_of_mem (ho : s.Ordered) (hb : b ∈ s.nodes) : s.insert b = s := by
  induction s with
  | nil => simp at hb
  | node p l r ihl ihr =>
      obtain rfl | hbl | hbr := mem_node.mp hb
      · simp [Radix.insert]
      · obtain ⟨-, hbit⟩ := ne_of_mem_left ho hbl
        have hp := List.IsPrefix.trans (List.prefix_append p [false]) (ho.1 b hbl)
        have hlen : p.length ≠ b.length := by
          have hle : p.length + 1 ≤ b.length := by simpa using (ho.1 b hbl).length_le
          omega
        simp [Radix.insert, hp, hlen, hbit, ihl ho.2.2.1 hbl]
      · obtain ⟨-, hbit⟩ := ne_of_mem_right ho hbr
        have hp := List.IsPrefix.trans (List.prefix_append p [true]) (ho.2.1 b hbr)
        have hlen : p.length ≠ b.length := by
          have hle : p.length + 1 ≤ b.length := by simpa using (ho.2.1 b hbr).length_le
          omega
        simp [Radix.insert, hp, hlen, hbit, ihr ho.2.2.2 hbr]

/-- Where the walks go on: the test that the loops have in common, and the link that they take. -/
theorem walk_iff {n p : Prefix} : n.prefixlen ≤ p.prefixlen ∧ prefixMatch n p ↔ n.key <+: p.key := by
  rw [prefixMatch_iff]
  exact ⟨fun h => h.2, fun h => ⟨by simpa using h.length_le, h⟩⟩

theorem walk_link {n p : Prefix} (hn : n.key <+: p.key) (hlen : n.prefixlen ≠ p.prefixlen) :
    prefixBit p.u n.prefixlen = bitAt p.key n.prefixlen := by
  have hle : n.prefixlen ≤ p.prefixlen := by simpa using hn.length_le
  rw [prefixBit_eq, bitAt_key (by omega)]

/-- What the walk of `route_node_get` comes to. -/
theorem placeFrom_spec {lock : List Bool → Nat} {info : List Bool → Option α} {above : Hook} {p : Prefix} {fuel : Nat}
    (hrep : Rep h.node L lock info (L.hook above) s) (ho : s.Ordered) (hkey : ∀ q ∈ s.nodes, (L.pre q).key = q)
    (hfuel : s.nodes.length ≤ fuel) (habove : ∀ q bit, above = some (q, bit) → q ++ [bit] <+: p.key) :
    (p.key ∈ s.nodes ∧ h.placeFrom p fuel (L.hook above) (L.root s) = some (.found (L.addr p.key))) ∨
    (p.key ∉ s.nodes ∧ ∃ m s₀, h.placeFrom p fuel (L.hook above) (L.root s) = some (.between (L.hook m) (L.root s₀)) ∧
      Replaces m s₀ (s₀.insert p.key) above s (s.insert p.key) ∧ (∀ c ∈ s₀.root?, ¬ c <+: p.key) ∧
      ∀ q bit, m = some (q, bit) → q ++ [bit] <+: p.key) := by
  induction s generalizing above fuel with
  | nil => exact .inr ⟨by simp, above, .nil, by cases fuel <;> rfl, .here, by simp [root?], habove⟩
  | node c l r ihl ihr =>
      cases fuel with
      | zero => simp [nodes] at hfuel
      | succ fuel =>
          have hc : (L.pre c).key = c := hkey c (by simp [nodes])
          have hclen : (L.pre c).prefixlen = c.length := by rw [← (L.pre c).length_key, hc]
          have hlens : l.nodes.length ≤ fuel ∧ r.nodes.length ≤ fuel := by
            simp only [nodes_node, List.length_cons, List.length_append] at hfuel
            omega
          have hnode : L.root (.node c l r) = some (L.addr c) := rfl
          rw [hnode, Heap.placeFrom, hrep.1]
          simp only [Option.bind_eq_bind, Option.bind_some, walk_iff, hc]
          by_cases hp : c <+: p.key
          · rw [if_pos hp]
            by_cases hlen : c.length = p.key.length
            · obtain rfl : c = p.key := hp.eq_of_length hlen
              rw [if_pos (by rw [hclen, p.length_key])]
              exact .inl ⟨by simp [nodes], rfl⟩
            · have hne : (L.pre c).prefixlen ≠ p.prefixlen := by rwa [hclen, ← p.length_key]
              have hstart := prefix_bitAt hp hlen
              rw [if_neg hne, walk_link (by rw [hc]; exact hp) hne, hclen]
              have hck : c ≠ p.key := fun h => hlen (by rw [h])
              cases hbit : bitAt p.key c.length with
              | false =>
                  rw [hbit] at hstart
                  have hmem : p.key ∈ (Radix.node c l r).nodes ↔ p.key ∈ l.nodes := by
                    rw [mem_node]
                    refine ⟨fun h => ?_, fun h => .inr (.inl h)⟩
                    obtain h | h | h := h
                    · exact absurd h.symm hck
                    · exact h
                    · exact absurd hbit (by simp [(ne_of_mem_right ho h).2])
                  obtain ⟨hmem', hrun⟩ | ⟨hmem', m, s₀, hrun, hreplaces, hroot, hm⟩ :=
                    @ihl (some (c, false)) fuel hrep.2.1 ho.2.2.1 (fun q hq => hkey q (by simp [mem_node, hq])) hlens.1
                      (by rintro q bit heq; cases heq; exact hstart)
                  · exact .inl ⟨hmem.mpr hmem', hrun⟩
                  · refine .inr ⟨fun h => hmem' (hmem.mp h), m, s₀, hrun, ?_, hroot, hm⟩
                    rw [Radix.insert, if_pos hp, if_neg hlen, hbit]
                    exact hreplaces.left
              | true =>
                  rw [hbit] at hstart
                  have hmem : p.key ∈ (Radix.node c l r).nodes ↔ p.key ∈ r.nodes := by
                    rw [mem_node]
                    refine ⟨fun h => ?_, fun h => .inr (.inr h)⟩
                    obtain h | h | h := h
                    · exact absurd h.symm hck
                    · exact absurd hbit (by simp [(ne_of_mem_left ho h).2])
                    · exact h
                  obtain ⟨hmem', hrun⟩ | ⟨hmem', m, s₀, hrun, hreplaces, hroot, hm⟩ :=
                    @ihr (some (c, true)) fuel hrep.2.2 ho.2.2.2 (fun q hq => hkey q (by simp [mem_node, hq])) hlens.2
                      (by rintro q bit heq; cases heq; exact hstart)
                  · exact .inl ⟨hmem.mpr hmem', hrun⟩
                  · refine .inr ⟨fun h => hmem' (hmem.mp h), m, s₀, hrun, ?_, hroot, hm⟩
                    rw [Radix.insert, if_pos hp, if_neg hlen, hbit]
                    exact hreplaces.right
          · rw [if_neg hp]
            refine .inr ⟨fun h => hp (ho.prefix_of_root List.prefix_rfl _ h), above, .node c l r, rfl, .here, ?_, habove⟩
            intro c' hc'
            rwa [← Option.some.inj hc']

/-- A table does not depend on the locks and on what hangs on nodes that it does not have. -/
theorem Refines.congr (hr : Refines f h L t) (htop : t'.top = t.top) (hlock : ∀ q ∈ t.top.nodes, t'.lock q = t.lock q)
    (hinfo : ∀ q ∈ t.top.nodes, t'.info q = t.info q) : Refines f h L t' where
  top := htop ▸ hr.top
  rep := htop ▸ hr.rep.congr (fun _ _ => rfl) (fun _ _ => rfl) (fun _ _ => rfl) hlock hinfo
  addr_inj := htop ▸ hr.addr_inj
  key := htop ▸ hr.key
  family := htop ▸ hr.family
  only := htop ▸ hr.only
  size := htop ▸ hr.size

/-- The layout of an older table goes on. -/
def Layout.Extends (L' L : Layout) (t : Radix) : Prop :=
  ∀ b ∈ t.nodes, L'.addr b = L.addr b ∧ L'.pre b = L.pre b

theorem Layout.extends_add (hx : x ∉ s.nodes) : (L.add x a px).Extends L s := by
  intro b hb
  have hbx : b ≠ x := fun heq => hx (heq ▸ hb)
  exact ⟨Function.update_of_ne hbx _ _, Function.update_of_ne hbx _ _⟩

/-- New nodes are held by nobody and nothing hangs on them; about the others the tables agree. -/
structure Grown (t t' : RouteTable α) : Prop where
  sub : ∀ q ∈ t.top.nodes, q ∈ t'.top.nodes
  old : ∀ q ∈ t.top.nodes, t'.lock q = t.lock q ∧ t'.info q = t.info q
  new : ∀ q ∈ t'.top.nodes, q ∉ t.top.nodes → t'.lock q = 0 ∧ t'.info q = none

theorem Grown.refl (t : RouteTable α) : Grown t t :=
  ⟨fun _ hq => hq, fun _ _ => ⟨rfl, rfl⟩, fun _ hq hn => absurd hq hn⟩

theorem Grown.trans {t'' : RouteTable α} (h : Grown t t') (h' : Grown t' t'') : Grown t t'' := by
  refine ⟨fun q hq => h'.sub q (h.sub q hq), fun q hq => ?_, fun q hq hn => ?_⟩
  · obtain ⟨hlock, hinfo⟩ := h'.old q (h.sub q hq)
    obtain ⟨hlock', hinfo'⟩ := h.old q hq
    exact ⟨hlock.trans hlock', hinfo.trans hinfo'⟩
  · by_cases hq' : q ∈ t'.top.nodes
    · obtain ⟨hlock, hinfo⟩ := h'.old q hq'
      obtain ⟨hlock', hinfo'⟩ := h.new q hq' hn
      exact ⟨hlock.trans hlock', hinfo.trans hinfo'⟩
    · exact h'.new q hq hq'

theorem Grown.grow (hperm : T'.nodes.Perm (x :: t.top.nodes)) (hx : x ∉ t.top.nodes) : Grown t (t.grow x T') := by
  refine ⟨fun q hq => hperm.mem_iff.mpr (List.mem_cons_of_mem _ hq), fun q hq => ?_, fun q hq hn => ?_⟩
  · have hqx : q ≠ x := fun heq => hx (heq ▸ hq)
    exact ⟨Function.update_of_ne hqx _ _, Function.update_of_ne hqx _ _⟩
  · obtain rfl := (List.mem_cons.mp (hperm.mem_iff.mp hq)).resolve_right hn
    exact ⟨Function.update_self _ _ _, Function.update_self _ _ _⟩

/-- The new table with the lock of `route_node_get`. -/
theorem Refines.lock_new (hr : Refines f h L t') {k : List Bool} (htop : t'.top = t.top.insert k) (ho : t.top.Ordered)
    (hg : Grown t t') : ∃ h', h.routeLockNode (L.addr k) = some h' ∧ Refines f h' L (routeNodeGet t k) := by
  have hk : k ∈ t'.top.nodes := htop ▸ mem_insert_self k t.top
  have hcongr : Refines f h L { t' with
      lock := fun b => if b ∈ t.top.nodes then t.lock b else 0
      info := fun b => if b ∈ t.top.nodes then t.info b else none } := by
    refine hr.congr rfl (fun q hq => ?_) fun q hq => ?_ <;> by_cases hqt : q ∈ t.top.nodes
    · exact (if_pos hqt).trans (hg.old q hqt).1.symm
    · exact (if_neg hqt).trans (hg.new q hq hqt).1.symm
    · exact (if_pos hqt).trans (hg.old q hqt).2.symm
    · exact (if_neg hqt).trans (hg.new q hq hqt).2.symm
  obtain ⟨h', hrun, hr'⟩ := hcongr.lock (htop ▸ ordered_insert ho) hk
  refine ⟨h', hrun, ?_⟩
  rw [routeNodeGet, ← htop]
  exact hr'

theorem perm_setLink {c : List Bool} {bit : Bool} {l r : Radix} (hside : x ++ [bit] <+: c) :
    (setLink (.node c l r) (.node x .nil .nil)).nodes.Perm (x :: (Radix.node c l r).nodes) := by
  have hbit : bitAt c x.length = bit := bitAt_of_start hside
  cases bit <;> simp [setLink, root?, hbit, nodes]

/-- The leaf beside the node that stands below the new one. -/
theorem replaces_beside {c k : List Bool} {bit bit' : Bool} {l r : Radix} (hside : x ++ [bit] <+: c)
    (hk : x ++ [bit'] <+: k) (hne : bit ≠ bit') (m : Hook) :
    Replaces (some (x, bit')) .nil (.node k .nil .nil) m (setLink (.node c l r) (.node x .nil .nil))
      (setLink (.node k .nil .nil) (setLink (.node c l r) (.node x .nil .nil))) := by
  have hcb : bitAt c x.length = bit := bitAt_of_start hside
  have hkb : bitAt k x.length = bit' := bitAt_of_start hk
  cases bit <;> cases bit'
  · exact absurd rfl hne
  · simp only [setLink, root?, Option.getD_some, hcb, hkb, Bool.false_eq_true, if_false, if_true]
    exact .right .here
  · simp only [setLink, root?, Option.getD_some, hcb, hkb, Bool.false_eq_true, if_false, if_true]
    exact .left .here
  · exact absurd rfl hne

/-- What `route_common` makes of the prefix and the node that stands where the prefix is to go. -/
theorem Refines.common_node (hr : Refines f h L t) (ho : t.top.Ordered) {p : Prefix} {c : List Bool} {l r : Radix}
    (hrep : Replaces m (.node c l r) s' none t.top T') (hck : ¬ c <+: p.key)
    (hm : ∀ q bit, m = some (q, bit) → q ++ [bit] <+: p.key) :
    ∃ nc bit, h.node (L.addr c) = some nc ∧ common c p.key ++ [bit] <+: c ∧
      (∀ q bit, m = some (q, bit) → q ++ [bit] <+: common c p.key) ∧
      Prefix.key { routeCommon nc.p p Heap.zeroPrefix with family := p.family } = common c p.key := by
  obtain ⟨xs, ys, hxs, -⟩ := hrep.nodes
  have hct : c ∈ t.top.nodes := by simp [hxs, nodes]
  obtain ⟨nc, hnc, hncp, -⟩ := hr.exists_node ho hct
  have hcp : (common c p.key).length ≠ c.length := by
    intro hlen
    have hc : common c p.key = c := (common_prefix_left c p.key).eq_of_length hlen
    exact hck (hc ▸ common_prefix_right c p.key)
  refine ⟨nc, _, hnc, prefix_bitAt (common_prefix_left c p.key) hcp, fun q bit hmq => ?_, ?_⟩
  · obtain ⟨-, -, lq, rq, hsub, hbranch⟩ := (Replaces.hook hrep ho rfl).2 q bit hmq
    have hoq := ho.sub q
    rw [hsub] at hoq
    refine prefix_common ?_ (hm q bit hmq)
    cases bit with
    | false => exact hoq.1 c (by rw [show lq = _ from hbranch]; simp [nodes])
    | true => exact hoq.2.1 c (by rw [show rq = _ from hbranch]; simp [nodes])
  · have hkc : nc.p.key = c := by rw [hncp, hr.key c hct]
    show (routeCommon nc.p p Heap.zeroPrefix).key = _
    rw [key_routeCommon (by rw [hkc]; exact hck), hkc]

section Get

variable {p : Prefix} {a₁ a₂ : Addr} {nc : Node α} {c : List Bool} {l r : Radix} {bit : Bool}

/-- Nothing stands where the prefix is to go. -/
theorem Refines.get_leaf (hr : Refines f h L t) (ho : t.top.Ordered) (hfam : p.family = f)
    (hlen : p.prefixlen ≤ 8 * f.bytes) (h₁ : h.node a₁ = none)
    (hrun : h.placeFrom p h.size none h.top = some (.between (L.hook m) none))
    (hrep : Replaces m .nil (.node p.key .nil .nil) none t.top (t.top.insert p.key))
    (hm : ∀ q bit, m = some (q, bit) → q ++ [bit] <+: p.key) :
    ∃ h' L', h.routeNodeGet p a₁ a₂ = some (h', L'.addr p.key) ∧ Refines f h' L' (routeNodeGet t p.key) ∧
      L'.Extends L t.top := by
  have hins := ordered_insert (k := p.key) ho
  obtain ⟨h', hrun', hr'⟩ := hr.addLeaf ho hrep hins h₁ hfam hlen hm
  obtain ⟨hperm, hx⟩ := hrep.new_node hins (List.Perm.refl [p.key])
  obtain ⟨h'', hlock, hr''⟩ := hr'.lock_new rfl ho (.grow hperm hx)
  have haddr : (L.add p.key a₁ (prefixCopy Heap.zeroPrefix p)).addr p.key = a₁ := Function.update_self _ _ _
  refine ⟨h'', _, ?_, hr'', Layout.extends_add hx⟩
  rw [haddr] at hlock ⊢
  simp [Heap.routeNodeGet, hrun, hrun', hlock]

/-- The new node goes above the one that stands there. -/
theorem Refines.get_above (hr : Refines f h L t) (ho : t.top.Ordered) (hfam : p.family = f) (h₁ : h.node a₁ = none)
    (hrun : h.placeFrom p h.size none h.top = some (.between (L.hook m) (some (L.addr c))))
    (hrep : Replaces m (.node c l r) ((Radix.node c l r).insert p.key) none t.top (t.top.insert p.key))
    (hck : ¬ c <+: p.key) (hnc : h.node (L.addr c) = some nc) (hside : common c p.key ++ [bit] <+: c)
    (hstart : ∀ q bit, m = some (q, bit) → q ++ [bit] <+: common c p.key)
    (hkeyx : Prefix.key { routeCommon nc.p p Heap.zeroPrefix with family := p.family } = common c p.key)
    (hlen : (common c p.key).length = p.key.length) :
    ∃ h' L', h.routeNodeGet p a₁ a₂ = some (h', L'.addr p.key) ∧ Refines f h' L' (routeNodeGet t p.key) ∧
      L'.Extends L t.top := by
  have hins := ordered_insert (k := p.key) ho
  have hx : common c p.key = p.key := (common_prefix_right c p.key).eq_of_length hlen
  have hinsert : (Radix.node c l r).insert p.key = setLink (.node c l r) (.node p.key .nil .nil) := by
    rw [Radix.insert, if_neg hck]
    simp only [hx, if_true]
  rw [hinsert] at hrep
  rw [hx] at hside hkeyx hstart
  obtain ⟨g₁, g₂, hrun₁, hrun₂, hr₂⟩ := hr.addAbove ho rfl hrep hins h₁ hkeyx hfam hside hstart
  obtain ⟨hperm, hxt⟩ := hrep.new_node hins (perm_setLink hside)
  obtain ⟨h'', hlock, hr''⟩ := hr₂.lock_new rfl ho (.grow hperm hxt)
  obtain ⟨n₁, hn₁, hp₁, -⟩ := hr₂.exists_node hins (mem_insert_self p.key t.top)
  have haddr : (L.add p.key a₁ { routeCommon nc.p p Heap.zeroPrefix with family := p.family }).addr p.key = a₁ :=
    Function.update_self _ _ _
  have hlen₁ : n₁.p.prefixlen = p.prefixlen := by
    rw [← n₁.p.length_key, hp₁, hr₂.key _ (mem_insert_self p.key t.top), p.length_key]
  refine ⟨h'', _, ?_, hr'', Layout.extends_add hxt⟩
  rw [haddr] at hlock hn₁ ⊢
  simp [Heap.routeNodeGet, hrun, Heap.splitAbove, hnc, hrun₁, hrun₂, hn₁, hlen₁, hlock]

/-- A node for what the two have in common goes above the one that stands there, and the new node beside that one. -/
theorem Refines.get_beside (hr : Refines f h L t) (ho : t.top.Ordered) (hfam : p.family = f)
    (hlen' : p.prefixlen ≤ 8 * f.bytes) (h₁ : h.node a₁ = none) (h₂ : h.node a₂ = none) (hne : a₁ ≠ a₂)
    (hrun : h.placeFrom p h.size none h.top = some (.between (L.hook m) (some (L.addr c))))
    (hrep : Replaces m (.node c l r) ((Radix.node c l r).insert p.key) none t.top (t.top.insert p.key))
    (hck : ¬ c <+: p.key) (hnc : h.node (L.addr c) = some nc) (hside : common c p.key ++ [bit] <+: c)
    (hstart : ∀ q bit, m = some (q, bit) → q ++ [bit] <+: common c p.key)
    (hkeyx : Prefix.key { routeCommon nc.p p Heap.zeroPrefix with family := p.family } = common c p.key)
    (hlen : (common c p.key).length ≠ p.key.length) :
    ∃ h' L', h.routeNodeGet p a₁ a₂ = some (h', L'.addr p.key) ∧ Refines f h' L' (routeNodeGet t p.key) ∧
      L'.Extends L t.top := by
  have hins := ordered_insert (k := p.key) ho
  have hbit := prefix_bitAt (common_prefix_right c p.key) hlen
  have hinsert : (Radix.node c l r).insert p.key =
      setLink (.node p.key .nil .nil) (setLink (.node c l r) (.node (common c p.key) .nil .nil)) := by
    rw [Radix.insert, if_neg hck]
    simp only [hlen, if_false]
  obtain ⟨T₁, hrep₁, hrep₂⟩ := hrep.split (setLink (.node c l r) (.node (common c p.key) .nil .nil))
  rw [hinsert] at hrep₂
  have hkc : ¬ p.key <+: c := fun hkc => hlen (Nat.le_antisymm (common_prefix_right c p.key).length_le
    (prefix_common hkc List.prefix_rfl).length_le)
  have hsides : bit ≠ bitAt p.key (common c p.key).length := by
    rw [← bitAt_of_start hside]
    exact bitAt_common_ne hck hkc
  have hleaf := (replaces_beside hside hbit hsides m).trans hrep₂
  have ho₁ := hleaf.ordered_left hins trivial (by simp)
  obtain ⟨g₁, g₂, hrun₁, hrun₂, hr₂⟩ := hr.addAbove ho rfl hrep₁ ho₁ h₁ hkeyx hfam hside hstart
  obtain ⟨hperm₁, hxt⟩ := hrep₁.new_node ho₁ (perm_setLink hside)
  obtain ⟨hperm₂, hkt⟩ := hleaf.new_node hins (List.Perm.refl [p.key])
  have hx₁ : common c p.key ∈ T₁.nodes := hperm₁.mem_iff.mpr (by simp)
  obtain ⟨n₁, hn₁, hp₁, -⟩ := hr₂.exists_node ho₁ hx₁
  have hlen₁ : n₁.p.prefixlen ≠ p.prefixlen := by
    rwa [← n₁.p.length_key, hp₁, hr₂.key _ hx₁, ← p.length_key]
  have haddr : (L.add (common c p.key) a₁ { routeCommon nc.p p Heap.zeroPrefix with family := p.family }).addr
      (common c p.key) = a₁ := Function.update_self _ _ _
  rw [haddr] at hn₁
  have hfresh : g₂.node a₂ = none := by
    cases hcase : g₂.node a₂ with
    | none => rfl
    | some n =>
        obtain ⟨q, hq, haq⟩ := hr₂.only a₂ n hcase
        obtain rfl | hqt := List.mem_cons.mp (hperm₁.mem_iff.mp hq)
        · exact absurd (haddr.symm.trans haq) hne
        · obtain ⟨n', hn', -⟩ := hr.exists_node ho hqt
          rw [← (Layout.extends_add hxt q hqt).1, haq, h₂] at hn'
          cases hn'
  obtain ⟨g₃, hrun₃, hr₃⟩ := hr₂.addLeaf ho₁ hleaf hins hfresh hfam hlen' (by
    rintro q bit heq
    cases heq
    exact hbit)
  have hnew := (Grown.grow hperm₁ hxt).trans
    (@Grown.grow α (t.grow (common c p.key) T₁) p.key (t.top.insert p.key) hperm₂ hkt)
  obtain ⟨h'', hlock, hr''⟩ := hr₃.lock_new rfl ho hnew
  refine ⟨h'', _, ?_, hr'', fun q hq => ?_⟩
  · have hadd : ∀ (L : Layout) (px : Prefix), (L.add p.key a₂ px).addr p.key = a₂ := fun L px =>
      Function.update_self _ _ _
    rw [hadd] at hlock ⊢
    simp only [Layout.hook, Option.map_some, haddr] at hrun₃
    have hset : (g₂.routeNodeSet a₂ p).setLink a₁ a₂ = some g₃ := hrun₃
    simp [Heap.routeNodeGet, hrun, Heap.splitAbove, hnc, hrun₁, hrun₂, hn₁, hlen₁, hset, hlock]
  · obtain ⟨haq, hpq⟩ := Layout.extends_add hkt q (hperm₁.mem_iff.mpr (List.mem_cons_of_mem _ hq))
    obtain ⟨haq₁, hpq₁⟩ := Layout.extends_add hxt q hq
    exact ⟨haq.trans haq₁, hpq.trans hpq₁⟩

/-- `route_node_get`. -/
theorem Refines.get (hr : Refines f h L t) (ho : t.top.Ordered) (hfam : p.family = f)
    (hlen' : p.prefixlen ≤ 8 * f.bytes) (h₁ : h.node a₁ = none) (h₂ : h.node a₂ = none) (hne : a₁ ≠ a₂) :
    ∃ h' L', h.routeNodeGet p a₁ a₂ = some (h', L'.addr p.key) ∧ Refines f h' L' (routeNodeGet t p.key) ∧
      L'.Extends L t.top := by
  have hplace := @placeFrom_spec α h L t.top t.lock t.info none p h.size hr.rep ho hr.key hr.size.ge (by simp)
  rw [show L.hook none = none from rfl, ← hr.top] at hplace
  obtain ⟨hmem, hrun⟩ | ⟨-, m, s₀, hrun, hrep, hroot, hm⟩ := hplace
  · obtain ⟨h', hlock, hr'⟩ := hr.lock_new (insert_of_mem ho hmem).symm ho (.refl t)
    exact ⟨h', L, by simp [Heap.routeNodeGet, hrun, hlock], hr', fun _ _ => ⟨rfl, rfl⟩⟩
  · cases s₀ with
    | nil => exact hr.get_leaf ho hfam hlen' h₁ hrun hrep hm
    | node c l r =>
        have hck : ¬ c <+: p.key := hroot c rfl
        obtain ⟨nc, bit, hnc, hside, hstart, hkeyx⟩ := hr.common_node ho hrep hck hm
        by_cases hlen : (common c p.key).length = p.key.length
        · exact hr.get_above ho hfam h₁ hrun hrep hck hnc hside hstart hkeyx hlen
        · exact hr.get_beside ho hfam hlen' h₁ h₂ hne hrun hrep hck hnc hside hstart hkeyx hlen

end Get

end Harry.Table
