import Harry.TableWalk

/-! Runs of `lib/table.c`: calls of `route_node_get`, locks, unlocks and changes of what hangs on the nodes, in any
order. The tree stays sound (`Reached.sound`). `route_prev` is the way back of `route_next`, with one exception: where
its caller holds a leaf alone and nobody the node above it, `route_prev` frees the node that it is about to return
(`routePrev_back_iff`). -/

namespace Harry.Table

open Harry.Base Harry.Base.Radix

variable {α : Type}

/-- What the users call. The addresses are those that `calloc` returns if there are new nodes. -/
inductive Call (α : Type) where
  | get (p : Prefix) (new₁ new₂ : Addr)
  | lock (a : Addr)
  | unlock (a : Addr)
  | setInfo (a : Addr) (i : Option α)

def Heap.call (h : Heap α) : Call α → Option (Heap α)
  | .get p new₁ new₂ => (h.routeNodeGet p new₁ new₂).map Prod.fst
  | .lock a => h.routeLockNode a
  | .unlock a => h.routeUnlockNode a
  | .setInfo a i => h.setInfo a i

/-- Somebody holds the node and may give it back: nothing hangs on it that would be left to nobody. -/
def Held (h : Heap α) (a : Addr) : Prop :=
  ∃ n, h.node a = some n ∧ 0 < n.lock ∧ (n.lock = 1 → n.info = none)

/-- The prefixes are of one family, and the users lock nodes that there are, give back what they hold, and change what
hangs on nodes that they hold. -/
def Legal (f : Family) (h : Heap α) : Call α → Prop
  | .get p new₁ new₂ => p.family = f ∧ p.prefixlen ≤ 8 * f.bytes ∧ h.node new₁ = none ∧ h.node new₂ = none ∧ new₁ ≠ new₂
  | .lock a => (h.node a).isSome
  | .unlock a => Held h a
  | .setInfo a _ => ∃ n, h.node a = some n ∧ 0 < n.lock

/-- What the users come to. -/
inductive Reached (f : Family) : Heap α → Prop
  | init : Reached f heapInit
  | call {h h' : Heap α} {c : Call α} (h₀ : Reached f h) (hlegal : Legal f h c) (hrun : h.call c = some h') : Reached f h'

section Invariant

variable {f : Family} {h h' : Heap α} {L : Layout} {t : RouteTable α} {a : Addr} {c : Call α}

theorem Refines.exists_addr (hr : Refines f h L t) (ho : t.top.Ordered) {n : Node α} (hn : h.node a = some n) :
    ∃ b ∈ t.top.nodes, a = L.addr b ∧ n.p = L.pre b ∧ n.p.key = b ∧ n.lock = t.lock b ∧ n.info = t.info b ∧
      n.parent = (t.top.parent b).map L.addr := by
  obtain ⟨b, hb, rfl⟩ := hr.only a n hn
  obtain ⟨n', hn', hp, hlock, hinfo, hpar⟩ := hr.exists_node ho hb
  obtain rfl := Option.some.inj (hn.symm.trans hn')
  exact ⟨b, hb, rfl, hp, by rw [hp, hr.key b hb], hlock, hinfo, hpar⟩

theorem Refines.held (hr : Refines f h L t) (ho : t.top.Ordered) (ha : Held h a) :
    ∃ b ∈ t.top.nodes, a = L.addr b ∧ 0 < t.lock b ∧ (t.lock b = 1 → t.info b = none) := by
  obtain ⟨n, hn, hpos, hone⟩ := ha
  obtain ⟨b, hb, rfl, -, -, hlock, hinfo, -⟩ := hr.exists_addr ho hn
  exact ⟨b, hb, rfl, hlock ▸ hpos, hlock ▸ hinfo ▸ hone⟩

/-- A legal call has a result, and the table stays one that keeps its nodes. -/
theorem Refines.call (hr : Refines f h L t) (hk : Kept t) (hlegal : Legal f h c) :
    ∃ h' L' t', h.call c = some h' ∧ Refines f h' L' t' ∧ Kept t' := by
  cases c with
  | get p new₁ new₂ =>
      obtain ⟨hfam, hlen, h₁, h₂, hne⟩ := hlegal
      obtain ⟨h', L', hrun, hr', -⟩ := hr.get hk.ordered hfam hlen h₁ h₂ hne
      exact ⟨h', L', _, by rw [Heap.call, hrun]; rfl, hr', hk.routeNodeGet p.key⟩
  | lock a =>
      obtain ⟨n, hn⟩ := Option.isSome_iff_exists.mp hlegal
      obtain ⟨b, hb, rfl, -⟩ := hr.exists_addr hk.ordered hn
      obtain ⟨h', hrun, hr'⟩ := hr.lock hk.ordered hb
      exact ⟨h', L, _, hrun, hr', hk.lock b⟩
  | unlock a =>
      obtain ⟨b, hb, rfl, hpos, hone⟩ := hr.held hk.ordered hlegal
      obtain ⟨t', hrun, ht'⟩ := hk.unlockNode hb hpos hone
      obtain ⟨h', hrun', hr'⟩ := hr.unlock hk hb hone hrun
      exact ⟨h', L, t', hrun', hr', ht'.kept⟩
  | setInfo a i =>
      obtain ⟨n, hn, hpos⟩ := hlegal
      obtain ⟨b, hb, rfl, -, -, hlock, -⟩ := hr.exists_addr hk.ordered hn
      obtain ⟨h', hrun, hr'⟩ := hr.setInfo hk.ordered hb i
      exact ⟨h', L, _, hrun, hr', hk.setInfo hb (hlock ▸ hpos)⟩

/-- What the users come to is a table that keeps its nodes. -/
theorem Reached.refines (h₀ : Reached f h) : ∃ L t, Refines f h L t ∧ Kept t := by
  induction h₀ with
  | init => exact ⟨⟨fun _ => 0, fun _ => Heap.zeroPrefix⟩, _, .init, .init⟩
  | call h₀ hlegal hrun ih =>
      obtain ⟨L, t, hr, hk⟩ := ih
      obtain ⟨h', L', t', hrun', hr', hk'⟩ := hr.call hk hlegal
      obtain rfl := Option.some.inj (hrun'.symm.trans hrun)
      exact ⟨L', t', hr', hk'⟩

end Invariant

/-- A node with an `info` whose prefix is one of `p`. -/
def Matching (h : Heap α) (p : Prefix) (a : Addr) (n : Node α) : Prop :=
  h.node a = some n ∧ n.info ≠ none ∧ n.p.key <+: p.key

/-- A walk that has locked one of two nodes next to each other can go to the other one and back. -/
def Neighbours (h : Heap α) (a b : Addr) : Prop :=
  ∃ ha hb, h.routeLockNode a = some ha ∧ h.routeLockNode b = some hb ∧
    ha.routeNext a = some (hb, some b) ∧ hb.routePrev b = some (ha, some a)

/-- The tree is one of the prefixes, and what the functions return is what they are for. -/
structure Sound (f : Family) (h : Heap α) : Prop where
  child : ∀ a n, h.node a = some n → ∀ bit c, n.link bit = some c →
    ∃ m, h.node c = some m ∧ m.parent = some a ∧ n.p.key ++ [bit] <+: m.p.key
  parent : ∀ c m, h.node c = some m → ∀ a, m.parent = some a → ∃ n bit, h.node a = some n ∧ n.link bit = some c
  top : ∀ c, h.top = some c ↔ ∃ m, h.node c = some m ∧ m.parent = none
  family : ∀ a n, h.node a = some n → n.p.family = f
  unique : ∀ a n, h.node a = some n → ∀ b m, h.node b = some m → n.p.key = m.p.key → a = b
  call : ∀ c, Legal f h c → ∃ h', h.call c = some h'
  get : ∀ p new₁ new₂, Legal f h (.get p new₁ new₂) → ∃ h' a n, h.routeNodeGet p new₁ new₂ = some (h', a) ∧
    h'.node a = some n ∧ n.p.key = p.key ∧ 0 < n.lock
  lookup : ∀ p, ∃ h' r, h.routeNodeLookup p = some (h', r) ∧ h.lockNode? r = some h' ∧
    ∀ a, r = some a ↔ ∃ n, h.node a = some n ∧ n.info ≠ none ∧ n.p.key = p.key
  matched : ∀ p, ∃ h' r, h.routeNodeMatch p = some (h', r) ∧ h.lockNode? r = some h' ∧
    (r = none ↔ ∀ a n, ¬ Matching h p a n) ∧
    ∀ a, r = some a ↔ ∃ n, Matching h p a n ∧ ∀ b m, Matching h p b m → m.p.prefixlen ≤ n.p.prefixlen
  visit : ∃ l, h.visit = some (h, l) ∧ l.Nodup ∧ (∀ a, a ∈ l ↔ (h.node a).isSome) ∧
    (l.Pairwise fun a b => ∀ n m, h.node a = some n → h.node b = some m → n.p.key < m.p.key) ∧
    ∀ xs a b ys, l = xs ++ a :: b :: ys → Neighbours h a b

section Sound

variable {f : Family} {h : Heap α} {L : Layout} {t : RouteTable α} {a b : Addr} {n m : Node α} {bit : Bool} {c : Addr}
  {x y : List Bool} {xs ys : List (List Bool)} {p : Prefix}

theorem Refines.link (hr : Refines f h L t) (ho : t.top.Ordered) (hn : h.node a = some n) (hlink : n.link bit = some c) :
    ∃ m, h.node c = some m ∧ m.parent = some a ∧ n.p.key ++ [bit] <+: m.p.key := by
  obtain ⟨x, hx, rfl, -, hkey, -⟩ := hr.exists_addr ho hn
  obtain ⟨l, r, hsub⟩ := exists_sub ho hx
  have hox := ho.sub x
  rw [hsub] at hox
  obtain rfl := Option.some.inj ((hr.node ho hsub).symm.trans hn)
  have hroot : L.root (if bit then r else l) = some c := by
    cases bit <;> exact hlink
  obtain ⟨y, hy, rfl⟩ := Option.map_eq_some_iff.mp hroot
  have hyb : y ∈ (if bit then r else l).nodes := by
    rw [← head?_nodes] at hy
    exact List.mem_of_mem_head? hy
  have hyt : y ∈ t.top.nodes := by
    refine mem_of_mem_sub (b := x) ?_
    rw [hsub, mem_node]
    cases bit
    · exact .inr (.inl hyb)
    · exact .inr (.inr hyb)
  obtain ⟨m, hm, hp, -, -, hpar⟩ := hr.exists_node ho hyt
  refine ⟨m, hm, ?_, ?_⟩
  · rw [hpar, parent_of_sub ho hsub (by cases bit <;> simp_all)]
    rfl
  · rw [hkey, hp, hr.key y hyt]
    cases bit
    · exact hox.1 y hyb
    · exact hox.2.1 y hyb

theorem Refines.parent (hr : Refines f h L t) (ho : t.top.Ordered) (hm : h.node c = some m) (hpar : m.parent = some a) :
    ∃ n bit, h.node a = some n ∧ n.link bit = some c := by
  obtain ⟨y, hy, rfl, -, -, -, -, hpar'⟩ := hr.exists_addr ho hm
  rw [hpar'] at hpar
  obtain ⟨x, hx, rfl⟩ := Option.map_eq_some_iff.mp hpar
  obtain ⟨l, r, hsub, hroot | hroot⟩ := branch_of_parent ho hy hx
  · exact ⟨_, false, hr.node ho hsub, congrArg (Option.map L.addr) hroot⟩
  · exact ⟨_, true, hr.node ho hsub, congrArg (Option.map L.addr) hroot⟩

theorem Refines.top_iff (hr : Refines f h L t) (ho : t.top.Ordered) :
    h.top = some c ↔ ∃ m, h.node c = some m ∧ m.parent = none := by
  rw [hr.top]
  constructor
  · intro htop
    obtain ⟨y, hy, rfl⟩ := Option.map_eq_some_iff.mp htop
    rw [← head?_nodes] at hy
    obtain ⟨m, hm, -, -, -, hpar⟩ := hr.exists_node ho (List.mem_of_mem_head? hy)
    obtain ⟨ys, hnodes⟩ := List.head?_eq_some_iff.mp hy
    have hfirst : t.top.nodes = [] ++ y :: ys := hnodes
    obtain ⟨-, hnone⟩ | ⟨q, hq, -⟩ := parent_mem ho hfirst
    · exact ⟨m, hm, by rw [hpar, hnone]; rfl⟩
    · cases hq
  · rintro ⟨m, hm, hpar⟩
    obtain ⟨y, hy, rfl, -, -, -, -, hpar'⟩ := hr.exists_addr ho hm
    rw [hpar', Option.map_eq_none_iff] at hpar
    obtain ⟨xs, ys, hnodes⟩ := List.append_of_mem hy
    obtain ⟨rfl, -⟩ | ⟨q, -, hq⟩ := parent_mem ho hnodes
    · rw [Layout.root, ← head?_nodes, hnodes]
      rfl
    · rw [hpar] at hq
      cases hq

theorem Refines.lookup (hr : Refines f h L t) (hk : Kept t) (p : Prefix) :
    ∃ h' r, h.routeNodeLookup p = some (h', r) ∧ h.lockNode? r = some h' ∧
      ∀ a, r = some a ↔ ∃ n, h.node a = some n ∧ n.info ≠ none ∧ n.p.key = p.key := by
  have hrun := Rep.lookupFrom (p := p) hr.rep hk.ordered hr.key hr.size.ge
  rw [← hr.top] at hrun
  have hmap : (if p.key ∈ t.top.nodes ∧ (t.info p.key).isSome then some (L.addr p.key) else none) =
      (if p.key ∈ t.top.nodes ∧ (t.info p.key).isSome then some p.key else none).map L.addr := by
    split_ifs <;> rfl
  obtain ⟨h', hlock, -⟩ := hr.lockNode? hk.ordered
    (o := if p.key ∈ t.top.nodes ∧ (t.info p.key).isSome then some p.key else none) (by
      intro b hb
      split_ifs at hb with hmem
      · exact Option.some.inj hb ▸ hmem.1
      · cases hb)
  rw [← hmap] at hlock
  refine ⟨h', _, by simp [Heap.routeNodeLookup, hrun, hlock], hlock, fun a => ?_⟩
  constructor
  · intro ha
    split_ifs at ha with hmem
    obtain rfl := Option.some.inj ha
    obtain ⟨n, hn, hp, -, hinfo, -⟩ := hr.exists_node hk.ordered hmem.1
    exact ⟨n, hn, by rw [hinfo]; exact Option.isSome_iff_ne_none.mp hmem.2, by rw [hp, hr.key _ hmem.1]⟩
  · rintro ⟨n, hn, hinfo, hkey⟩
    obtain ⟨b, hb, rfl, -, hb', -, hinfo', -⟩ := hr.exists_addr hk.ordered hn
    obtain rfl : p.key = b := hkey.symm.trans hb'
    rw [if_pos ⟨hb, Option.isSome_iff_ne_none.mpr (hinfo' ▸ hinfo)⟩]

/-- Of two prefixes of one key the longer one comes later. -/
theorem length_le_of_lt {k x y : List Bool} (hx : x <+: k) (hy : y <+: k) (hlt : x < y) : x.length ≤ y.length := by
  obtain hxy | hyx := List.prefix_or_prefix_of_prefix hx hy
  · exact hxy.length_le
  · by_contra hlen
    have hne : y.length ≠ x.length := by omega
    exact absurd ( lt_of_prefix (prefix_bitAt hyx hne)) (not_lt_of_gt hlt)

theorem Refines.matching_iff (hr : Refines f h L t) (hk : Kept t) :
    Matching h p a n ↔ h.node a = some n ∧
      ∃ b ∈ t.top.nodes.filter (fun q => q <+: p.key ∧ (t.info q).isSome), a = L.addr b ∧ n.p.key = b := by
  constructor
  · rintro ⟨hn, hinfo, hkey⟩
    obtain ⟨b, hb, rfl, -, hb', -, hinfo', -⟩ := hr.exists_addr hk.ordered hn
    refine ⟨hn, b, List.mem_filter.mpr ⟨hb, decide_eq_true ⟨hb' ▸ hkey, ?_⟩⟩, rfl, hb'⟩
    exact Option.isSome_iff_ne_none.mpr (hinfo' ▸ hinfo)
  · rintro ⟨hn, b, hb, rfl, hkey⟩
    obtain ⟨hbt, hb⟩ := List.mem_filter.mp hb
    obtain ⟨hbk, hsome⟩ := of_decide_eq_true hb
    obtain ⟨n', hn', -, -, hinfo, -⟩ := hr.exists_node hk.ordered hbt
    obtain rfl := Option.some.inj (hn.symm.trans hn')
    exact ⟨hn, by rw [hinfo]; exact Option.isSome_iff_ne_none.mp hsome, hkey ▸ hbk⟩

theorem Refines.matched (hr : Refines f h L t) (hk : Kept t) (p : Prefix) :
    ∃ h' r, h.routeNodeMatch p = some (h', r) ∧ h.lockNode? r = some h' ∧ (r = none ↔ ∀ a n, ¬ Matching h p a n) ∧
      ∀ a, r = some a ↔ ∃ n, Matching h p a n ∧ ∀ b m, Matching h p b m → m.p.prefixlen ≤ n.p.prefixlen := by
  have hrun := Rep.matchFrom (p := p) hr.rep hk.ordered hr.key hr.size.ge none
  rw [← hr.top, Option.or_none] at hrun
  have hmatching := fun a n => hr.matching_iff hk (p := p) (a := a) (n := n)
  have hsorted := (nodes_pairwise hk.ordered).filter (fun q => decide (q <+: p.key ∧ (t.info q).isSome))
  have hsub : ∀ b ∈ t.top.nodes.filter (fun q => q <+: p.key ∧ (t.info q).isSome), b ∈ t.top.nodes ∧ b <+: p.key :=
    fun b hb => ⟨(List.mem_filter.mp hb).1, (of_decide_eq_true (List.mem_filter.mp hb).2).1⟩
  generalize t.top.nodes.filter (fun q => q <+: p.key ∧ (t.info q).isSome) = l at hrun hmatching hsorted hsub
  obtain ⟨h', hlock, -⟩ := hr.lockNode? hk.ordered (o := l.getLast?) fun b hb => (hsub b (List.mem_of_mem_getLast? hb)).1
  have hnode : ∀ b ∈ l, ∃ n, h.node (L.addr b) = some n ∧ n.p.key = b ∧ n.p.prefixlen = b.length := by
    intro b hb
    obtain ⟨n, hn, hp, -⟩ := hr.exists_node hk.ordered (hsub b hb).1
    have hkey : n.p.key = b := by rw [hp, hr.key b (hsub b hb).1]
    exact ⟨n, hn, hkey, by rw [← n.p.length_key, hkey]⟩
  refine ⟨h', _, by simp [Heap.routeNodeMatch, hrun, hlock], hlock, ?_, fun a => ?_⟩
  · rw [Option.map_eq_none_iff, List.getLast?_eq_none_iff]
    constructor
    · rintro rfl a n hm
      obtain ⟨-, b, hb, -⟩ := (hmatching a n).mp hm
      cases hb
    · intro hno
      refine List.eq_nil_iff_forall_not_mem.mpr fun b hb => ?_
      obtain ⟨n, hn, hkey, -⟩ := hnode b hb
      exact hno _ n ((hmatching _ n).mpr ⟨hn, b, hb, rfl, hkey⟩)
  · -- the last one in the order of the tree is the longest one
    have hlast : ∀ z, l.getLast? = some z → ∀ b ∈ l, b = z ∨ b.length ≤ z.length ∧ b < z := by
      intro z hz b hb
      obtain ⟨l', rfl⟩ := List.getLast?_eq_some_iff.mp hz
      obtain hb' | hb' := List.mem_append.mp hb
      · have hlt := (List.pairwise_append.mp hsorted).2.2 b hb' z (by simp)
        exact .inr ⟨length_le_of_lt (hsub b hb).2 (hsub z (by simp)).2 hlt, hlt⟩
      · exact .inl (List.mem_singleton.mp hb')
    constructor
    · intro ha
      obtain ⟨z, hz, rfl⟩ := Option.map_eq_some_iff.mp ha
      have hzl := List.mem_of_mem_getLast? hz
      obtain ⟨n, hn, hkey, hlen⟩ := hnode z hzl
      refine ⟨n, (hmatching _ n).mpr ⟨hn, z, hzl, rfl, hkey⟩, fun b m hm => ?_⟩
      obtain ⟨-, b', hb', -, hkey'⟩ := (hmatching b m).mp hm
      rw [hlen, ← m.p.length_key, hkey']
      obtain rfl | ⟨hle, -⟩ := hlast z hz b' hb'
      · exact le_rfl
      · exact hle
    · rintro ⟨n, hm, hmax⟩
      obtain ⟨-, b, hb, rfl, hkey⟩ := (hmatching a n).mp hm
      obtain ⟨z, hz⟩ : ∃ z, l.getLast? = some z := by
        cases hl : l.getLast? with
        | none => rw [List.getLast?_eq_none_iff.mp hl] at hb; cases hb
        | some z => exact ⟨z, rfl⟩
      have hzl := List.mem_of_mem_getLast? hz
      obtain ⟨nz, hnz, hkeyz, hlenz⟩ := hnode z hzl
      have hle := hmax _ nz ((hmatching _ nz).mpr ⟨hnz, z, hzl, rfl, hkeyz⟩)
      rw [hlenz, ← n.p.length_key, hkey] at hle
      rw [hz, Option.map_some]
      obtain rfl | ⟨hle', hlt⟩ := hlast z hz b hb
      · rfl
      · -- two prefixes of one key with one length are one
        have hbz := List.prefix_of_prefix_length_le (hsub b hb).2 (hsub z hzl).2 hle'
        rw [hbz.eq_of_length (Nat.le_antisymm hle' hle)]

theorem Refines.neighbours (hr : Refines f h L t) (hk : Kept t) (hb : t.top.nodes = xs ++ x :: y :: ys) :
    Neighbours h (L.addr x) (L.addr y) := by
  have hx : x ∈ t.top.nodes := by simp [hb]
  have hy : y ∈ t.top.nodes := by simp [hb]
  obtain ⟨hx', hlx, -⟩ := hr.lock hk.ordered hx
  obtain ⟨hy', hly, hry⟩ := hr.lock hk.ordered hy
  obtain ⟨g, hg, hnext⟩ := hr.next hk hb hlx
  obtain rfl := Option.some.inj (hly.symm.trans hg)
  have hb' : (routeLockNode t y).top.nodes = (xs ++ [x]) ++ y :: ys := by simp [hb]
  have hprev := hry.prev (hk.lock y) hb'
  rw [hr.unlock_lock hk hy hly] at hprev
  refine ⟨hx', hy', hlx, hly, hnext, hprev.trans ?_⟩
  simp [Heap.lockNode?, hlx]

theorem Refines.visit_spec (hr : Refines f h L t) (hk : Kept t) :
    ∃ l, h.visit = some (h, l) ∧ l.Nodup ∧ (∀ a, a ∈ l ↔ (h.node a).isSome) ∧
      (l.Pairwise fun a b => ∀ n m, h.node a = some n → h.node b = some m → n.p.key < m.p.key) ∧
      ∀ xs a b ys, l = xs ++ a :: b :: ys → Neighbours h a b := by
  have hsorted := nodes_pairwise hk.ordered
  refine ⟨_, hr.visit hk, ?_, fun a => ?_, ?_, fun xs a b ys hl => ?_⟩
  · refine (List.nodup_map_iff_inj_on (hsorted.imp ne_of_lt)).mpr fun x hx y hy => ?_
    exact hr.addr_inj x hx y hy
  · rw [List.mem_map]
    constructor
    · rintro ⟨x, hx, rfl⟩
      obtain ⟨n, hn, -⟩ := hr.exists_node hk.ordered hx
      simp [hn]
    · intro ha
      obtain ⟨n, hn⟩ := Option.isSome_iff_exists.mp ha
      exact hr.only a n hn
  · rw [List.pairwise_map]
    refine hsorted.imp_of_mem fun {x y} hx hy hlt n m hn hm => ?_
    obtain ⟨n', hn', hp, -⟩ := hr.exists_node hk.ordered hx
    obtain ⟨m', hm', hp', -⟩ := hr.exists_node hk.ordered hy
    obtain rfl := Option.some.inj (hn.symm.trans hn')
    obtain rfl := Option.some.inj (hm.symm.trans hm')
    rwa [hp, hp', hr.key x hx, hr.key y hy]
  · obtain ⟨xs', ys', hnodes, rfl, htail⟩ := List.map_eq_append_iff.mp hl
    obtain ⟨x, ys'', rfl, rfl, htail'⟩ := List.map_eq_cons_iff.mp htail
    obtain ⟨y, ys₃, rfl, rfl, rfl⟩ := List.map_eq_cons_iff.mp htail'
    exact hr.neighbours hk hnodes

/-- The tree is sound whatever the users do. -/
theorem Reached.sound (h₀ : Reached f h) : Sound f h := by
  obtain ⟨L, t, hr, hk⟩ := h₀.refines
  have ho := hk.ordered
  refine ⟨fun a n hn bit c => hr.link ho hn, fun c m hm a => hr.parent ho hm, fun c => hr.top_iff ho, fun a n hn => ?_,
    fun a n hn b m hm hkey => ?_, fun c hlegal => ?_, fun p new₁ new₂ hlegal => ?_, hr.lookup hk, hr.matched hk,
    hr.visit_spec hk⟩
  · obtain ⟨x, hx, -, hp, -⟩ := hr.exists_addr ho hn
    rw [hp]
    exact hr.family x hx
  · obtain ⟨x, -, rfl, -, hx, -⟩ := hr.exists_addr ho hn
    obtain ⟨y, -, rfl, -, hy, -⟩ := hr.exists_addr ho hm
    rw [← hx, ← hy, hkey]
  · obtain ⟨h', -, -, hrun, -⟩ := hr.call hk hlegal
    exact ⟨h', hrun⟩
  · obtain ⟨hfam, hlen, h₁, h₂, hne⟩ := hlegal
    obtain ⟨h', L', hrun, hr', -⟩ := hr.get ho hfam hlen h₁ h₂ hne
    have hmem : p.key ∈ (routeNodeGet t p.key).top.nodes := routeNodeGet_mem
    obtain ⟨n, hn, hp, hlock, -⟩ := hr'.exists_node (hk.routeNodeGet p.key).ordered hmem
    refine ⟨h', _, n, hrun, hn, ?_, ?_⟩
    · rw [hp, hr'.key _ hmem]
    · rw [hlock]
      exact routeNodeGet_lock_pos

end Sound

/-! ### The way back -/

/-- The node from which `route_next` leads to a node. There is none before the topmost node. -/
def Before (h : Heap α) (b : Addr) (prev : Option Addr) : Prop :=
  (h.top = some b ∧ prev = none) ∨ ∃ a, prev = some a ∧ h.nextNode a = some (some b)

/-- `route_prev` moves the lock of its caller to the node before. -/
def Back (h : Heap α) (b : Addr) : Prop :=
  ∃ prev h₁ h₂, Before h b prev ∧ h.routeUnlockNode b = some h₁ ∧ h₁.lockNode? prev = some h₂ ∧
    h.routePrev b = some (h₂, prev)

/-- The caller is the only one who holds a leaf, and nobody holds the node on the left of which the leaf is. -/
def Strands (h : Heap α) (b : Addr) : Prop :=
  ∃ n q m, h.node b = some n ∧ n.lock = 1 ∧ n.left = none ∧ n.right = none ∧ n.parent = some q ∧
    h.node q = some m ∧ m.lock = 0 ∧ m.left = some b

section Back

variable {f : Family} {h h₁ : Heap α} {L : Layout} {t t' : RouteTable α} {b : Addr} {x y : List Bool}
  {xs ys : List (List Bool)} {prev : Option Addr}

theorem Refines.before_iff (hr : Refines f h L t) (ho : t.top.Ordered) (hb : t.top.nodes = xs ++ x :: ys) :
    Before h (L.addr x) prev ↔ prev = xs.getLast?.map L.addr := by
  have hx : x ∈ t.top.nodes := by simp [hb]
  have hnodup : (xs ++ x :: ys).Nodup := hb ▸ (nodes_pairwise ho).imp ne_of_lt
  obtain ⟨-, hcons, hdisj⟩ := List.nodup_append.mp hnodup
  have hxs : x ∉ xs := fun h => hdisj x h x (by simp) rfl
  have hys : x ∉ ys := (List.nodup_cons.mp hcons).1
  constructor
  · rintro (⟨htop, rfl⟩ | ⟨a, rfl, hnext⟩)
    · rw [hr.top, Layout.root, ← head?_nodes, hb] at htop
      cases xs with
      | nil => rfl
      | cons z zs =>
          have hz : z = x := hr.addr_inj z (by simp [hb]) x hx (Option.some.inj htop)
          exact absurd hz fun heq => hxs (by simp [heq])
    · obtain ⟨n, hn⟩ : ∃ n, h.node a = some n := by
        cases ha : h.node a with
        | none => simp [Heap.nextNode, ha] at hnext
        | some n => exact ⟨n, rfl⟩
      obtain ⟨z, hz, rfl, -⟩ := hr.exists_addr ho hn
      obtain ⟨as, bs, has⟩ := List.append_of_mem hz
      rw [hr.nextNode ho hz, next_eq ho has] at hnext
      obtain ⟨x', hx', haddr⟩ := Option.map_eq_some_iff.mp (Option.some.inj hnext)
      obtain ⟨bs', rfl⟩ := List.head?_eq_some_iff.mp hx'
      obtain rfl := hr.addr_inj x' (by simp [has]) x hx haddr
      have hsplit : xs ++ x' :: ys = (as ++ [z]) ++ x' :: bs' := by rw [← hb, has]; simp
      obtain ⟨rfl, -, -⟩ := (List.append_cons_inj_of_notMem hxs hys).mp hsplit
      simp
  · rintro rfl
    obtain rfl | ⟨as, z, rfl⟩ := List.eq_nil_or_concat xs
    · refine .inl ⟨?_, rfl⟩
      rw [hr.top, Layout.root, ← head?_nodes, hb]
      rfl
    · have hz : z ∈ t.top.nodes := by simp [hb]
      refine .inr ⟨L.addr z, by simp, ?_⟩
      have hb' : t.top.nodes = as ++ z :: x :: ys := by simp [hb]
      rw [hr.nextNode ho hz, next_eq ho hb']
      rfl

/-- What is stranded, in terms of the table. -/
theorem Refines.strands_iff (hr : Refines f h L t) (hk : Kept t) (hb : t.top.nodes = xs ++ x :: ys) :
    Strands h (L.addr x) ↔
      ∃ y ∈ xs.getLast?, t.lock x = 1 ∧ HoldsLeaf x y t.top ∧ t.lock y = 0 := by
  have ho := hk.ordered
  have hx : x ∈ t.top.nodes := by simp [hb]
  have hroot : ∀ y l r, t.top.sub y = .node y l r → ∀ z ∈ l.root?, z ∈ t.top.nodes := by
    intro y l r hsub z hz
    rw [← head?_nodes] at hz
    refine mem_of_mem_sub (b := y) ?_
    rw [hsub, mem_node]
    exact .inr (.inl (List.mem_of_mem_head? hz))
  constructor
  · rintro ⟨n, q, m, hn, hlock, hleft, hright, hpar, hm, hmlock, hmleft⟩
    obtain ⟨lx, rx, hsubx⟩ := exists_sub ho hx
    obtain rfl := Option.some.inj ((hr.node ho hsubx).symm.trans hn)
    obtain rfl := root_eq_none.mp hleft
    obtain rfl := root_eq_none.mp hright
    obtain ⟨y, hy, rfl⟩ := Option.map_eq_some_iff.mp hpar
    obtain ⟨l, r, hsuby, -⟩ := branch_of_parent ho hx hy
    obtain rfl := Option.some.inj ((hr.node ho hsuby).symm.trans hm)
    obtain ⟨z, hz, hzx⟩ := Option.map_eq_some_iff.mp hmleft
    obtain rfl := hr.addr_inj z (hroot y l r hsuby z hz) x hx hzx
    have hyt : y ∈ t.top.nodes := (mem_of_parent ho hx hy).1
    have hleaf : l = .node z .nil .nil := by
      have hzl : z ∈ l.nodes := by
        rw [← head?_nodes] at hz
        exact List.mem_of_mem_head? hz
      have hoy := ho.sub y
      rw [hsuby] at hoy
      have hzy : z ∈ (t.top.sub y).nodes := by
        rw [hsuby, mem_node]
        exact .inr (.inl hzl)
      rw [sub_of_mem_sub ho hzy, hsuby, sub_of_mem_left hoy hzl] at hsubx
      cases l with
      | nil => cases hsubx
      | node z' l' r' =>
          obtain rfl : z' = z := Option.some.inj hz
          simpa [Radix.sub] using hsubx
    have hnext : t.top.next y = some z := by
      rw [Radix.next, nextFrom_sub hsuby, hz]
      rfl
    have hbefore : Before h (L.addr z) (some (L.addr y)) := by
      refine .inr ⟨_, rfl, ?_⟩
      rw [hr.nextNode ho hyt, hnext]
      rfl
    obtain ⟨y', hy', hyy⟩ := Option.map_eq_some_iff.mp ((hr.before_iff ho hb).mp hbefore).symm
    have hy't : y' ∈ t.top.nodes := by simp [hb, List.mem_of_mem_getLast? hy']
    obtain rfl := hr.addr_inj y' hy't y hyt hyy
    exact ⟨y', hy', hlock, ⟨l, r, hsuby, .inl hleaf⟩, hmlock⟩
  · rintro ⟨y, hy, hlock, hleaf, hylock⟩
    obtain ⟨as, rfl⟩ := List.getLast?_eq_some_iff.mp hy
    have hb' : t.top.nodes = as ++ y :: x :: ys := by simp [hb]
    have hyt : y ∈ t.top.nodes := by simp [hb]
    obtain hpos | ⟨-, hfull⟩ := hk.held y hyt
    · omega
    obtain ⟨l, r, hsub, hl, -⟩ := hfull.sub ho
    have hnext : t.top.next y = some x := next_eq ho hb'
    obtain ⟨z, hzl, hz⟩ := root_mem hl
    rw [Radix.next, nextFrom_sub hsub, hz] at hnext
    obtain rfl : z = x := by simpa using hnext
    -- the leaf is on the left, since it comes next
    obtain ⟨l', r', hsub', hside⟩ := hleaf
    obtain ⟨-, rfl, rfl⟩ := node.inj (hsub.symm.trans hsub')
    have hoy := ho.sub y
    rw [hsub] at hoy
    have hright : r ≠ .node z .nil .nil := by
      rintro rfl
      exact not_both (hoy.1 z hzl) (hoy.2.1 z (by simp [nodes]))
    have hleaf' : HoldsLeaf z y t.top := ⟨l, r, hsub, hside⟩
    refine ⟨_, L.addr y, _, hr.node ho (hleaf'.sub ho), hlock, rfl, rfl, ?_, hr.node ho hsub, hylock, ?_⟩
    · rw [hleaf'.parent ho]
      rfl
    · rw [hside.resolve_right hright]
      rfl

/-- `route_prev` is the way back of `route_next`, unless the node that it would return goes before. -/
theorem Refines.back_iff (hr : Refines f h L t) (hk : Kept t) (hb : t.top.nodes = xs ++ x :: ys) (hpos : 0 < t.lock x)
    (hone : t.lock x = 1 → t.info x = none) : Back h (L.addr x) ↔ ¬ Strands h (L.addr x) := by
  have ho := hk.ordered
  have hx : x ∈ t.top.nodes := by simp [hb]
  obtain ⟨t', hrun, ht'⟩ := hk.unlockNode hx hpos hone
  obtain ⟨h₁, hrun₁, hr₁⟩ := hr.unlock hk hx hone hrun
  have hprev := hr.prev hk hb
  rw [hrun₁] at hprev
  rw [hr.strands_iff hk hb]
  constructor
  · rintro ⟨prev, g₁, g₂, hbefore, hunlock, hlock, -⟩ ⟨y, hy, hone', hleaf, hylock⟩
    obtain rfl := (hr.before_iff ho hb).mp hbefore
    obtain rfl := Option.some.inj (hrun₁.symm.trans hunlock)
    have hyt : y ∈ t.top.nodes := by simp [hb, List.mem_of_mem_getLast? hy]
    rw [Option.mem_def.mp hy] at hlock
    cases hn : h₁.node (L.addr y) with
    | none => simp [Heap.lockNode?, Heap.routeLockNode, hn] at hlock
    | some n =>
        obtain ⟨z, hz, hzy⟩ := hr₁.only _ n hn
        obtain rfl := hr.addr_inj z (ht'.sub z hz) y hyt hzy
        exact ht'.goes z hone' hleaf hylock hz
  · intro hno
    have hstays : ∀ y ∈ xs.getLast?, y ∈ t'.top.nodes := by
      intro y hy
      have hyxs := List.mem_of_mem_getLast? hy
      have hyx : y ≠ x := by
        rintro rfl
        have hnodup : (xs ++ y :: ys).Nodup := hb ▸ (nodes_pairwise ho).imp ne_of_lt
        exact (List.nodup_append.mp hnodup).2.2 y hyxs y (by simp) rfl
      refine ht'.stays y (by simp [hb, hyxs]) hyx ?_
      by_contra hnot
      simp only [not_or, not_not] at hnot
      exact hno ⟨y, hy, hnot.1, hnot.2.2, by omega⟩
    obtain ⟨h₂, hlock, -⟩ := hr₁.lockNode? ht'.kept.ordered hstays
    refine ⟨_, h₁, h₂, (hr.before_iff ho hb).mpr rfl, hrun₁, hlock, hprev.trans ?_⟩
    simp [hlock]

/-- The table is sound after any run. Where a user holds a node, `route_prev` is the way back of `route_next` from there,
unless the user is the only one who holds it, it is a leaf, and nobody holds the node on the left of which it is. -/
theorem routePrev_back_iff (h₀ : Reached f h) :
    Sound f h ∧ ∀ b, Held h b → (Back h b ↔ ¬ Strands h b) := by
  refine ⟨h₀.sound, fun b hb => ?_⟩
  obtain ⟨L, t, hr, hk⟩ := h₀.refines
  obtain ⟨x, hx, rfl, hpos, hone⟩ := hr.held hk.ordered hb
  obtain ⟨xs, ys, hnodes⟩ := List.append_of_mem hx
  exact hr.back_iff hk hnodes hpos hone

end Back

/-- The prefixes 10.0.0.0/16 and so on. -/
def net16 (second : UInt8) : Prefix :=
  ⟨.inet, 16, fun i => [10, second, 0, 0].getD i 0⟩

/-- Something is hung on one of them; then another is taken, which comes to stand beside it. -/
def pairHeap (x y : UInt8) : Option (Heap Unit) := do
  let h ← heapInit.call (.get (net16 x) 0 1)
  let h ← h.call (.setInfo 0 (some ()))
  h.call (.get (net16 y) 1 2)

theorem exists_node_of_elim {h : Heap α} {a : Addr} {test : Node α → Bool} (ht : (h.node a).elim false test = true) :
    ∃ n, h.node a = some n ∧ test n = true := by
  cases hn : h.node a with
  | none => simp [hn] at ht
  | some n => exact ⟨n, rfl, by simpa [hn] using ht⟩

theorem net16_prefixlen (x : UInt8) : (net16 x).prefixlen ≤ 8 * Family.inet.bytes := by
  show 16 ≤ 8 * 4
  decide

theorem exists_pairHeap (x y : UInt8) (test : Heap Unit → Bool)
    (hrun : ((heapInit : Heap Unit).call (.get (net16 x) 0 1)).elim false (fun h₁ =>
      (h₁.node 0).elim false (fun n => 0 < n.lock) ∧ (h₁.call (.setInfo 0 (some ()))).elim false fun h₂ =>
      (h₂.node 1).isNone ∧ (h₂.node 2).isNone ∧ (h₂.call (.get (net16 y) 1 2)).elim false test) = true) :
    ∃ h, pairHeap x y = some h ∧ Reached .inet h ∧ test h = true := by
  cases h₁ : (heapInit : Heap Unit).call (.get (net16 x) 0 1) with
  | none => simp [h₁] at hrun
  | some g₁ =>
      rw [h₁] at hrun
      obtain ⟨hheld, hrun⟩ := of_decide_eq_true hrun
      cases h₂ : g₁.call (.setInfo 0 (some ())) with
      | none => simp [h₂] at hrun
      | some g₂ =>
          rw [h₂] at hrun
          obtain ⟨hfree₁, hfree₂, hrun⟩ := of_decide_eq_true hrun
          cases h₃ : g₂.call (.get (net16 y) 1 2) with
          | none => simp [h₃] at hrun
          | some g₃ =>
              rw [h₃] at hrun
              obtain ⟨n₀, hn₀, hlock₀⟩ := exists_node_of_elim hheld
              have hlegal₁ : Legal .inet (heapInit : Heap Unit) (.get (net16 x) 0 1) :=
                ⟨rfl, net16_prefixlen x, rfl, rfl, by decide⟩
              have hlegal₂ : Legal .inet g₁ (.setInfo 0 (some ())) := ⟨n₀, hn₀, of_decide_eq_true hlock₀⟩
              have hlegal₃ : Legal .inet g₂ (.get (net16 y) 1 2) :=
                ⟨rfl, net16_prefixlen y, Option.isNone_iff_eq_none.mp hfree₁,
                  Option.isNone_iff_eq_none.mp hfree₂, by decide⟩
              have hreach₁ : Reached .inet g₁ := .call .init hlegal₁ h₁
              have hreach₂ : Reached .inet g₂ := hreach₁.call hlegal₂ h₂
              have hlast : pairHeap x y = some g₃ := by
                simp only [pairHeap, h₁, h₂, h₃, Option.bind_eq_bind, Option.bind_some]
              exact ⟨g₃, hlast, hreach₂.call hlegal₃ h₃, hrun⟩

/-- From 10.0.0.0/16 `route_prev` would go to the node 10.0.0.0/8, which nobody holds. -/
theorem routePrev_not_back : ∃ h, pairHeap 128 0 = some h ∧ Reached .inet h ∧ Held h 2 ∧ ¬ Back h 2 := by
  obtain ⟨h, hpair, hreach, htest⟩ := exists_pairHeap 128 0 (fun h =>
    (h.node 2).elim false (fun n => n.lock = 1 ∧ n.info.isNone) ∧ (h.routePrev 2).isNone) (by decide)
  obtain ⟨hleaf, hprev⟩ := of_decide_eq_true htest
  obtain ⟨n, hn, hlock⟩ := exists_node_of_elim hleaf
  obtain ⟨hone, hinfo⟩ := of_decide_eq_true hlock
  refine ⟨h, hpair, hreach, ⟨n, hn, by omega, fun _ => Option.isNone_iff_eq_none.mp hinfo⟩, ?_⟩
  rintro ⟨prev, _, h₄, -, -, -, hback⟩
  rw [Option.isNone_iff_eq_none.mp hprev] at hback
  cases hback

/-- The leaf 10.128.0.0/16 is on the right of the node 10.0.0.0/8, which nobody holds. -/
theorem routePrev_back_iff_right : ∃ h n q, pairHeap 0 128 = some h ∧ h.node 2 = some n ∧ n.parent = some 1 ∧
    n.left = none ∧ n.right = none ∧ h.node 1 = some q ∧ q.lock = 0 ∧ q.left = some 0 ∧
    Held h 2 ∧ Sound .inet h ∧ Back h 2 := by
  obtain ⟨h, hpair, hreach, htest⟩ := exists_pairHeap 0 128 (fun h =>
    (h.node 2).elim false (fun n =>
      n.lock = 1 ∧ n.info.isNone ∧ n.parent = some 1 ∧ n.left = none ∧ n.right = none) ∧
    (h.node 1).elim false (fun q => q.lock = 0 ∧ q.left = some 0)) (by decide)
  obtain ⟨hleaf, hglue⟩ := of_decide_eq_true htest
  obtain ⟨n, hn, hleaf⟩ := exists_node_of_elim hleaf
  obtain ⟨hone, hinfo, hparent, hleft, hright⟩ := of_decide_eq_true hleaf
  obtain ⟨q, hq, hglue⟩ := exists_node_of_elim hglue
  obtain ⟨hlock, hqleft⟩ := of_decide_eq_true hglue
  have hheld : Held h 2 := ⟨n, hn, by omega, fun _ => Option.isNone_iff_eq_none.mp hinfo⟩
  obtain ⟨hsound, hback⟩ := routePrev_back_iff hreach
  refine ⟨h, n, q, hpair, hn, hparent, hleft, hright, hq, hlock, hqleft, hheld, hsound, (hback 2 hheld).mpr ?_⟩
  rintro ⟨n', q', m, hn', -, -, -, hparent', hm, -, hleft'⟩
  obtain rfl := Option.some.inj (hn.symm.trans hn')
  obtain rfl := Option.some.inj (hparent.symm.trans hparent')
  obtain rfl := Option.some.inj (hq.symm.trans hm)
  rw [hqleft] at hleft'
  cases hleft'

end Harry.Table
