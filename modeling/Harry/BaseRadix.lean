import Mathlib.Algebra.Group.Nat.Defs
import Mathlib.Data.Bool.Basic
import Mathlib.Data.List.Lex
import Mathlib.Order.Lattice

/-! Radix trees over strings of bits. A node carries its whole prefix; the nodes of its left branch go on with a
zero, those of its right branch with a one. A node is addressed by its prefix, so that the tree is only a shape and
what is stored at a node is a function of the address. The meaning of a tree is the list of its nodes in preorder:
it is strictly ascending (`nodes_pairwise`), `next` is the successor in it (`next_eq`), and `insert` adds the key
and at most one more node, which then has two branches (`mem_insert`). -/

namespace Harry.Base

/-- The longest common prefix of two strings. -/
def common : List Bool → List Bool → List Bool
  | a :: as, b :: bs => if a = b then a :: common as bs else []
  | _, _ => []

theorem common_prefix_left (a b : List Bool) : common a b <+: a := by
  fun_induction common a b with
  | case1 a as bs ih => simpa using ih
  | case2 => simp
  | case3 => simp

theorem common_prefix_right (a b : List Bool) : common a b <+: b := by
  fun_induction common a b with
  | case1 a as bs ih => simpa using ih
  | case2 => simp
  | case3 => simp

theorem prefix_common {x a b : List Bool} (ha : x <+: a) (hb : x <+: b) : x <+: common a b := by
  induction x generalizing a b with
  | nil => simp
  | cons y x ih =>
      obtain ⟨s, rfl⟩ := ha
      obtain ⟨t, rfl⟩ := hb
      simpa [common] using ih (List.prefix_append _ s) (List.prefix_append _ t)

/-- The bit of a string behind a prefix of the given length, zero behind its end. -/
def bitAt (k : List Bool) (n : Nat) : Bool :=
  k.getD n false

theorem bitAt_of_start {p b : List Bool} {c : Bool} (h : p ++ [c] <+: b) : bitAt b p.length = c := by
  obtain ⟨s, rfl⟩ := h
  simp [bitAt]

theorem prefix_bitAt {p k : List Bool} (h : p <+: k) (hne : p.length ≠ k.length) :
    p ++ [bitAt k p.length] <+: k := by
  obtain ⟨s, rfl⟩ := h
  cases s with
  | nil => simp at hne
  | cons c s => simp [bitAt]

/-- Two strings that both are longer than their common prefix differ in the bit behind it. -/
theorem bitAt_common_ne {a b : List Bool} (ha : ¬ a <+: b) (hb : ¬ b <+: a) :
    bitAt a (common a b).length ≠ bitAt b (common a b).length := by
  fun_induction common a b with
  | case1 a as bs ih =>
      rw [List.cons_prefix_cons] at ha hb
      simpa [bitAt] using ih (fun h => ha ⟨rfl, h⟩) (fun h => hb ⟨rfl, h⟩)
  | case2 a as b bs hne => simpa [bitAt] using hne
  | case3 a b h =>
      cases a with
      | nil => simp at ha
      | cons a as =>
          cases b with
          | nil => simp at hb
          | cons b bs => exact absurd rfl (h a as b bs rfl)

/-- The common prefix ends where the one string ends or goes on with another bit than the other. -/
theorem common_eq {x a b : List Bool} {c : Bool} (ha : x ++ [c] <+: a) (hb : x <+: b)
    (hstop : x = b ∨ ∃ d, d ≠ c ∧ x ++ [d] <+: b) : common a b = x := by
  have hx : x <+: common a b := prefix_common ((List.prefix_append x [c]).trans ha) hb
  by_contra hne
  have hlen : x.length ≠ (common a b).length := fun hlen => hne (hx.eq_of_length hlen).symm
  have hnext := prefix_bitAt hx hlen
  have hc := bitAt_of_start (hnext.trans (common_prefix_left a b))
  rw [bitAt_of_start ha] at hc
  obtain rfl | ⟨d, hd, hxd⟩ := hstop
  · exact absurd (hnext.trans (common_prefix_right a x)).length_le (by simp)
  · have hd' := bitAt_of_start (hnext.trans (common_prefix_right a b))
    rw [bitAt_of_start hxd] at hd'
    exact hd (hd'.trans hc.symm)

/-- What two strings go on from is a prefix of the place where they part. -/
theorem prefix_of_branches {x c a b : List Bool} {i j : Bool} (ha : x <+: a) (hb : x <+: b)
    (hca : c ++ [i] <+: a) (hcb : c ++ [j] <+: b) (hne : i ≠ j) : x <+: c := by
  by_cases hlen : x.length ≤ c.length
  · exact List.prefix_of_prefix_length_le ha ((List.prefix_append c [i]).trans hca) hlen
  · have hi : c ++ [i] <+: x :=
      List.prefix_of_prefix_length_le hca ha (by simp only [List.length_append, List.length_singleton]; omega)
    exact absurd (bitAt_of_start (hi.trans hb)) (by rw [bitAt_of_start hcb]; exact hne.symm)

theorem not_both {p q : List Bool} (hf : p ++ [false] <+: q) (ht : p ++ [true] <+: q) : False := by
  have h := bitAt_of_start ht
  rw [bitAt_of_start hf] at h
  exact absurd h (by decide)

theorem lt_of_prefix {p q : List Bool} {c : Bool} (h : p ++ [c] <+: q) : p < q := by
  obtain ⟨s, rfl⟩ := h
  have hlt : p ++ [] < p ++ (c :: s) := List.append_left_lt (List.nil_lt_cons c s)
  simpa using hlt

theorem lt_of_branches {p a b : List Bool} (ha : p ++ [false] <+: a) (hb : p ++ [true] <+: b) : a < b := by
  obtain ⟨s, rfl⟩ := ha
  obtain ⟨t, rfl⟩ := hb
  simp only [List.append_assoc, List.singleton_append]
  refine List.append_left_lt ?_
  rw [List.cons_lt_cons_iff]
  exact .inl (by decide)

/-- The strings that go on from `k` are an interval. -/
theorem prefix_of_lt_of_lt {k a b c : List Bool} (ha : k <+: a) (hc : k <+: c) (hab : a < b) (hbc : b < c) :
    k <+: b := by
  induction k generalizing a b c with
  | nil => simp
  | cons x k ih =>
      obtain ⟨s, rfl⟩ := ha
      obtain ⟨t, rfl⟩ := hc
      cases b with
      | nil => simp at hab
      | cons y b =>
          simp only [List.cons_append, List.cons_lt_cons_iff] at hab hbc
          obtain hxy | ⟨rfl, hab⟩ := hab
          · obtain hyx | ⟨rfl, _⟩ := hbc
            · exact absurd hxy (lt_asymm hyx)
            · exact absurd hxy (lt_irrefl y)
          · obtain hyx | ⟨_, hbc⟩ := hbc
            · exact absurd hyx (lt_irrefl x)
            · simpa using ih (List.prefix_append k s) (List.prefix_append k t) hab hbc

/-- In a list that ascends, those that go on from `k` stand together. -/
theorem filter_prefix_together {β : Type} {f : β → List Bool} {l : List β}
    (hl : l.Pairwise fun a b => f a < f b) (k : List Bool) :
    ∃ as bs, l = as ++ (l.filter (fun a => k <+: f a) ++ bs) ∧ ∀ b ∈ bs, ¬ k <+: f b := by
  induction l with
  | nil => exact ⟨[], [], rfl, by simp⟩
  | cons a l ih =>
      obtain ⟨hal, hl⟩ := List.pairwise_cons.mp hl
      obtain ⟨as, bs, heq, hbs⟩ := ih hl
      by_cases ha : k <+: f a
      · by_cases hnil : l.filter (fun a => k <+: f a) = []
        · refine ⟨[], l, by simp [ha, hnil], fun b hb hkb => ?_⟩
          have hmem : b ∈ l.filter (fun a => k <+: f a) := List.mem_filter.mpr ⟨hb, by simpa using hkb⟩
          rw [hnil] at hmem
          simp at hmem
        · obtain ⟨c, hc⟩ := List.exists_mem_of_ne_nil _ hnil
          have hkc : k <+: f c := by simpa using (List.mem_filter.mp hc).2
          have has : as = [] := by
            refine List.eq_nil_iff_forall_not_mem.mpr fun b hb => ?_
            have hsplit := hl
            rw [heq, List.pairwise_append] at hsplit
            have hbc : f b < f c := hsplit.2.2 b hb c (by simp [hc])
            have hbl : b ∈ l := by rw [heq]; simp [hb]
            have hkb := prefix_of_lt_of_lt ha hkc (hal b hbl) hbc
            have hbf : b ∈ l.filter (fun a => k <+: f a) := List.mem_filter.mpr ⟨hbl, by simpa using hkb⟩
            exact absurd (hsplit.2.2 b hb b (by simp [hbf])) (lt_irrefl _)
          subst has
          refine ⟨[], bs, ?_, hbs⟩
          rw [List.filter_cons_of_pos (by simpa using ha), List.nil_append, List.cons_append, List.cons.injEq]
          exact ⟨rfl, by simpa using heq⟩
      · refine ⟨a :: as, bs, ?_, hbs⟩
        rw [List.filter_cons_of_neg (by simpa using ha), List.cons_append, List.cons.injEq]
        exact ⟨rfl, heq⟩

/-- The last `n` bits of a number, the highest one first. -/
def bitsOf : Nat → Nat → List Bool
  | 0, _ => []
  | n + 1, x => x.testBit n :: bitsOf n x

@[simp]
theorem length_bitsOf (n x : Nat) : (bitsOf n x).length = n := by
  induction n with
  | zero => rfl
  | succ n ih => simp [bitsOf, ih]

theorem bitsOf_lt_iff (n x y : Nat) : bitsOf n x < bitsOf n y ↔ x % 2 ^ n < y % 2 ^ n := by
  induction n with
  | zero => simp [bitsOf, Nat.mod_one]
  | succ n ih =>
      have hx := Nat.mod_lt x (Nat.two_pow_pos n)
      have hy := Nat.mod_lt y (Nat.two_pow_pos n)
      rw [bitsOf, bitsOf, List.cons_lt_cons_iff, ih, Nat.mod_pow_succ, Nat.mod_pow_succ, ← Nat.toNat_testBit,
        ← Nat.toNat_testBit]
      cases x.testBit n <;> cases y.testBit n <;> simp [Bool.lt_iff] <;> omega

theorem bitsOf_inj {n x y : Nat} : bitsOf n x = bitsOf n y ↔ x % 2 ^ n = y % 2 ^ n := by
  constructor
  · intro h
    have hxy := bitsOf_lt_iff n x y
    have hyx := bitsOf_lt_iff n y x
    rw [h] at hxy hyx
    simp only [lt_irrefl, false_iff, not_lt] at hxy hyx
    omega
  · intro h
    have hxy := bitsOf_lt_iff n x y
    have hyx := bitsOf_lt_iff n y x
    rw [h] at hxy hyx
    simp only [lt_irrefl, iff_false, not_lt] at hxy hyx
    exact le_antisymm hyx hxy

/-- Strings are compared first by what is in front of them. -/
theorem append_lt_append_iff {β : Type} [LinearOrder β] {p q a b : List β} (h : p.length = q.length) :
    p ++ a < q ++ b ↔ p < q ∨ p = q ∧ a < b := by
  induction p generalizing q with
  | nil =>
      obtain rfl : q = [] := List.length_eq_zero_iff.mp h.symm
      simp
  | cons x p ih =>
      cases q with
      | nil => simp at h
      | cons y q =>
          simp only [List.cons_append, List.cons_lt_cons_iff, List.cons.injEq, ih (by simpa using h)]
          tauto

/-- The bits of a string of bytes. -/
def byteBits (bs : List UInt8) : List Bool :=
  bs.flatMap fun b => bitsOf 8 b.toNat

theorem byteBits_append (as bs : List UInt8) : byteBits (as ++ bs) = byteBits as ++ byteBits bs := by
  simp [byteBits]

theorem length_byteBits (bs : List UInt8) : (byteBits bs).length = 8 * bs.length := by
  induction bs with
  | nil => rfl
  | cons b bs ih => simp [byteBits] at ih ⊢; omega

/-- Strings of bytes of one length are in the order of their bits. -/
theorem byteBits_lt_iff {as bs : List UInt8} (h : as.length = bs.length) :
    byteBits as < byteBits bs ↔ as < bs := by
  induction as generalizing bs with
  | nil =>
      obtain rfl : bs = [] := List.length_eq_zero_iff.mp h.symm
      simp [byteBits]
  | cons a as ih =>
      cases bs with
      | nil => simp at h
      | cons b bs =>
          have hih := ih (by simpa using h)
          have ha := a.toNat_lt
          have hb := b.toNat_lt
          simp only [byteBits, List.flatMap_cons] at hih ⊢
          rw [append_lt_append_iff (by simp), hih, bitsOf_lt_iff, bitsOf_inj, List.cons_lt_cons_iff,
            Nat.mod_eq_of_lt ha, Nat.mod_eq_of_lt hb, UInt8.lt_iff_toNat_lt, UInt8.toNat_inj]

theorem byteBits_inj {as bs : List UInt8} (h : as.length = bs.length) : byteBits as = byteBits bs ↔ as = bs := by
  induction as generalizing bs with
  | nil =>
      obtain rfl : bs = [] := List.length_eq_zero_iff.mp h.symm
      simp
  | cons a as ih =>
      cases bs with
      | nil => simp at h
      | cons b bs =>
          have hih := ih (by simpa using h)
          have ha := a.toNat_lt
          have hb := b.toNat_lt
          have happ : bitsOf 8 a.toNat ++ byteBits as = bitsOf 8 b.toNat ++ byteBits bs ↔
              bitsOf 8 a.toNat = bitsOf 8 b.toNat ∧ byteBits as = byteBits bs :=
            ⟨fun heq => List.append_inj heq (by simp), fun heq => by rw [heq.1, heq.2]⟩
          rw [hih, bitsOf_inj, Nat.mod_eq_of_lt ha, Nat.mod_eq_of_lt hb, UInt8.toNat_inj] at happ
          simpa [byteBits] using happ

/-- The shape of a radix tree. -/
inductive Radix where
  | nil
  | node (p : List Bool) (left right : Radix)
  deriving DecidableEq

namespace Radix

/-- The nodes in preorder. -/
def nodes : Radix → List (List Bool)
  | nil => []
  | node p l r => p :: (l.nodes ++ r.nodes)

/-- The prefix of the topmost node. -/
def root? : Radix → Option (List Bool)
  | nil => none
  | node p _ _ => some p

/-- The nodes below a node go on with the bit of their branch. -/
def Ordered : Radix → Prop
  | nil => True
  | node p l r =>
    (∀ q ∈ l.nodes, p ++ [false] <+: q) ∧ (∀ q ∈ r.nodes, p ++ [true] <+: q) ∧ l.Ordered ∧ r.Ordered

@[simp]
theorem nodes_nil : nil.nodes = [] := rfl

theorem nodes_node (p : List Bool) (l r : Radix) : (node p l r).nodes = p :: (l.nodes ++ r.nodes) := rfl

theorem mem_node {q p : List Bool} {l r : Radix} :
    q ∈ (node p l r).nodes ↔ q = p ∨ q ∈ l.nodes ∨ q ∈ r.nodes := by
  simp [nodes]

theorem head?_nodes (t : Radix) : t.nodes.head? = t.root? := by
  cases t <;> rfl

theorem Ordered.prefix_of_root {x p : List Bool} {l r : Radix} (h : (node p l r).Ordered) (hx : x <+: p) :
    ∀ q ∈ (node p l r).nodes, x <+: q := by
  intro q hq
  rw [mem_node] at hq
  obtain rfl | hq | hq := hq
  · exact hx
  · exact hx.trans ((List.prefix_append p [false]).trans (h.1 q hq))
  · exact hx.trans ((List.prefix_append p [true]).trans (h.2.1 q hq))

/-- The preorder of an ordered tree ascends. -/
theorem nodes_pairwise {t : Radix} (h : t.Ordered) : t.nodes.Pairwise (· < ·) := by
  induction t with
  | nil => simp
  | node p l r ihl ihr =>
      obtain ⟨hl, hr, hol, hor⟩ := h
      rw [nodes_node, List.pairwise_cons, List.pairwise_append]
      refine ⟨?_, ihl hol, ihr hor, ?_⟩
      · intro q hq
        rw [List.mem_append] at hq
        obtain hq | hq := hq
        · exact lt_of_prefix (hl q hq)
        · exact lt_of_prefix (hr q hq)
      · intro a ha b hb
        exact lt_of_branches (hl a ha) (hr b hb)

/-- The branch of a node on the way to a string. -/
def branch (k : List Bool) : Radix → Radix
  | nil => nil
  | node p l r => if bitAt k p.length then r else l

/-- The subtree under the node with the given prefix. -/
def sub (b : List Bool) : Radix → Radix
  | nil => nil
  | node p l r => if p = b then node p l r else if bitAt b p.length then r.sub b else l.sub b

section

variable {p b : List Bool} {l r : Radix}

theorem ne_of_mem_left (h : (node p l r).Ordered) (hb : b ∈ l.nodes) : p ≠ b ∧ bitAt b p.length = false := by
  have hpre := h.1 b hb
  refine ⟨?_, bitAt_of_start hpre⟩
  rintro rfl
  exact absurd hpre.length_le (by simp)

theorem ne_of_mem_right (h : (node p l r).Ordered) (hb : b ∈ r.nodes) : p ≠ b ∧ bitAt b p.length = true := by
  have hpre := h.2.1 b hb
  refine ⟨?_, bitAt_of_start hpre⟩
  rintro rfl
  exact absurd hpre.length_le (by simp)

end

/-- The tree has a node of the given prefix with both of its branches. -/
def Full (b : List Bool) : Radix → Prop
  | nil => False
  | node p l r => (p = b ∧ l ≠ nil ∧ r ≠ nil) ∨ l.Full b ∨ r.Full b

theorem Full.mem {b : List Bool} {t : Radix} (h : t.Full b) : b ∈ t.nodes := by
  induction t with
  | nil => exact h.elim
  | node p l r ihl ihr =>
      rw [mem_node]
      obtain ⟨rfl, _, _⟩ | h | h := h
      · exact .inl rfl
      · exact .inr (.inl (ihl h))
      · exact .inr (.inr (ihr h))

theorem Full.branches {b : List Bool} {l r : Radix} (ho : (node b l r).Ordered) (h : (node b l r).Full b) :
    l ≠ nil ∧ r ≠ nil := by
  obtain ⟨-, h⟩ | h | h := h
  · exact h
  · exact absurd rfl (ne_of_mem_left ho h.mem).1
  · exact absurd rfl (ne_of_mem_right ho h.mem).1

/-- Below a node with a given prefix there is what the way down finds. -/
theorem Full.sub {b : List Bool} {t : Radix} (ho : t.Ordered) (h : t.Full b) :
    ∃ l r, t.sub b = node b l r ∧ l ≠ nil ∧ r ≠ nil := by
  induction t with
  | nil => exact h.elim
  | node p l r ihl ihr =>
      obtain ⟨rfl, hl, hr⟩ | h | h := h
      · exact ⟨l, r, by simp [Radix.sub], hl, hr⟩
      · obtain ⟨hne, hbit⟩ := ne_of_mem_left ho h.mem
        simpa [Radix.sub, hne, hbit] using ihl ho.2.2.1 h
      · obtain ⟨hne, hbit⟩ := ne_of_mem_right ho h.mem
        simpa [Radix.sub, hne, hbit] using ihr ho.2.2.2 h

theorem root_mem {t : Radix} (h : t ≠ nil) : ∃ b ∈ t.nodes, t.root? = some b := by
  cases t with
  | nil => exact absurd rfl h
  | node p l r => exact ⟨p, by simp [nodes], rfl⟩

/-! ### Insertion -/

/-- A tree linked below the topmost node, on the side of its bit. -/
def setLink (child : Radix) : Radix → Radix
  | nil => child
  | node p l r =>
    if bitAt (child.root?.getD []) p.length then node p l child else node p child r

/-- The tree with a node for `k`: the node there is, a new leaf, or a new node above the first one that is no prefix
of `k`; if that node stands for their common prefix only, it gets a leaf for `k` beside. -/
def insert (k : List Bool) : Radix → Radix
  | nil => node k nil nil
  | node p l r =>
    if p <+: k then
      if p.length = k.length then node p l r
      else if bitAt k p.length then node p l (r.insert k)
      else node p (l.insert k) r
    else
      let new := setLink (node p l r) (node (common p k) nil nil)
      if (common p k).length = k.length then new else setLink (node k nil nil) new

/-- Induction along an insertion, with what the place of each new node says about the key. -/
theorem insert_induct (k : List Bool) {P : Radix → Radix → Prop}
    (empty : P nil (node k nil nil))
    (here : ∀ l r, P (node k l r) (node k l r))
    (right : ∀ p l r, p ++ [true] <+: k → P r (r.insert k) → P (node p l r) (node p l (r.insert k)))
    (left : ∀ p l r, p ++ [false] <+: k → P l (l.insert k) → P (node p l r) (node p (l.insert k) r))
    (aboveRight : ∀ p l r, k ++ [true] <+: p → P (node p l r) (node k nil (node p l r)))
    (aboveLeft : ∀ p l r, k ++ [false] <+: p → P (node p l r) (node k (node p l r) nil))
    (besideRight : ∀ c p l r, c ++ [true] <+: p → c ++ [false] <+: k →
      P (node p l r) (node c (node k nil nil) (node p l r)))
    (besideLeft : ∀ c p l r, c ++ [false] <+: p → c ++ [true] <+: k →
      P (node p l r) (node c (node p l r) (node k nil nil)))
    (t : Radix) : P t (t.insert k) := by
  induction t with
  | nil => exact empty
  | node p l r ihl ihr =>
      by_cases hp : p <+: k
      · by_cases hlen : p.length = k.length
        · obtain rfl : p = k := hp.eq_of_length hlen
          simpa [insert] using here l r
        · have hbit := prefix_bitAt hp hlen
          cases hb : bitAt k p.length with
          | false => simpa [insert, hp, hlen, hb] using left p l r (hb ▸ hbit) ihl
          | true => simpa [insert, hp, hlen, hb] using right p l r (hb ▸ hbit) ihr
      · have hcp : (common p k).length ≠ p.length := by
          intro hlen
          have hc : common p k = p := (common_prefix_left p k).eq_of_length hlen
          exact hp (hc ▸ common_prefix_right p k)
        have hbp := prefix_bitAt (common_prefix_left p k) hcp
        by_cases hlen : (common p k).length = k.length
        · have hc : common p k = k := (common_prefix_right p k).eq_of_length hlen
          rw [hc] at hbp
          cases hb : bitAt p k.length with
          | false => simpa [insert, hp, hc, setLink, root?, hb] using aboveLeft p l r (hb ▸ hbp)
          | true => simpa [insert, hp, hc, setLink, root?, hb] using aboveRight p l r (hb ▸ hbp)
        · have hbk := prefix_bitAt (common_prefix_right p k) hlen
          have hk : ¬ k <+: p := fun hk =>
            hlen (Nat.le_antisymm (common_prefix_right p k).length_le
              (prefix_common hk List.prefix_rfl).length_le)
          have hne := bitAt_common_ne hp hk
          cases hb : bitAt p (common p k).length with
          | false =>
              have hb' : bitAt k (common p k).length = true := by simpa [hb] using hne.symm
              simpa [insert, hp, hlen, setLink, root?, hb, hb'] using
                besideLeft (common p k) p l r (hb ▸ hbp) (hb' ▸ hbk)
          | true =>
              have hb' : bitAt k (common p k).length = false := by simpa [hb] using hne.symm
              simpa [insert, hp, hlen, setLink, root?, hb, hb'] using
                besideRight (common p k) p l r (hb ▸ hbp) (hb' ▸ hbk)

theorem mem_insert_self (k : List Bool) (t : Radix) : k ∈ (t.insert k).nodes := by
  refine insert_induct k (P := fun _ t' => k ∈ t'.nodes) ?_ ?_ ?_ ?_ ?_ ?_ ?_ ?_ t <;>
    simp +contextual [mem_node]

theorem mem_insert_of_mem {q k : List Bool} {t : Radix} : q ∈ t.nodes → q ∈ (t.insert k).nodes := by
  refine insert_induct k (P := fun t t' => q ∈ t.nodes → q ∈ t'.nodes) ?_ ?_ ?_ ?_ ?_ ?_ ?_ ?_ t
  · simp
  · intro l r hq
    exact hq
  · intro p l r _ ih hq
    rw [mem_node] at hq ⊢
    exact hq.imp_right (Or.imp_right ih)
  · intro p l r _ ih hq
    rw [mem_node] at hq ⊢
    exact hq.imp_right (Or.imp_left ih)
  · intro p l r _ hq
    exact mem_node.mpr (.inr (.inr hq))
  · intro p l r _ hq
    exact mem_node.mpr (.inr (.inl hq))
  · intro c p l r _ _ hq
    exact mem_node.mpr (.inr (.inr hq))
  · intro c p l r _ _ hq
    exact mem_node.mpr (.inr (.inl hq))

/-- What all nodes and the key go on from, the new nodes go on from. -/
theorem prefix_of_mem_insert {x k : List Bool} {t : Radix} (hk : x <+: k) :
    (∀ q ∈ t.nodes, x <+: q) → ∀ q ∈ (t.insert k).nodes, x <+: q := by
  refine insert_induct k (P := fun t t' => (∀ q ∈ t.nodes, x <+: q) → ∀ q ∈ t'.nodes, x <+: q)
    ?_ ?_ ?_ ?_ ?_ ?_ ?_ ?_ t
  · intro _ q hq
    simp only [mem_node, nodes_nil, List.not_mem_nil, or_false] at hq
    exact hq ▸ hk
  · intro l r ht
    exact ht
  · intro p l r _ ih ht
    simp only [mem_node, or_imp, forall_and] at ht ⊢
    exact ⟨ht.1, ht.2.1, ih ht.2.2⟩
  · intro p l r _ ih ht
    simp only [mem_node, or_imp, forall_and] at ht ⊢
    exact ⟨ht.1, ih ht.2.1, ht.2.2⟩
  · intro p l r _ ht
    rw [nodes_node k]
    simpa [hk] using ht
  · intro p l r _ ht
    rw [nodes_node k]
    simpa [hk] using ht
  · intro c p l r hcp hck ht
    have hc : x <+: c := prefix_of_branches (ht p (by simp [nodes])) hk hcp hck (by decide)
    rw [nodes_node c, nodes_node k]
    simpa [hc, hk] using ht
  · intro c p l r hcp hck ht
    have hc : x <+: c := prefix_of_branches (ht p (by simp [nodes])) hk hcp hck (by decide)
    rw [nodes_node c, nodes_node k]
    simpa [hc, hk, or_imp, forall_and] using ht

theorem ordered_insert {k : List Bool} {t : Radix} : t.Ordered → (t.insert k).Ordered := by
  refine insert_induct k (P := fun t t' => t.Ordered → t'.Ordered) ?_ ?_ ?_ ?_ ?_ ?_ ?_ ?_ t
  · simp [Ordered]
  · intro l r h
    exact h
  · intro p l r hp ih h
    exact ⟨h.1, prefix_of_mem_insert hp h.2.1, h.2.2.1, ih h.2.2.2⟩
  · intro p l r hp ih h
    exact ⟨prefix_of_mem_insert hp h.1, h.2.1, ih h.2.2.1, h.2.2.2⟩
  · intro p l r hp h
    exact ⟨by simp, h.prefix_of_root hp, trivial, h⟩
  · intro p l r hp h
    exact ⟨h.prefix_of_root hp, by simp, h, trivial⟩
  · intro c p l r hp hk h
    exact ⟨by simpa [nodes] using hk, h.prefix_of_root hp, by simp [Ordered], h⟩
  · intro c p l r hp hk h
    exact ⟨h.prefix_of_root hp, by simpa [nodes] using hk, h, by simp [Ordered]⟩

theorem insert_ne_nil (k : List Bool) (t : Radix) : t.insert k ≠ nil := by
  intro h
  have hk := mem_insert_self k t
  rw [h] at hk
  simp at hk

/-- A node with both branches keeps them. -/
theorem full_insert {b k : List Bool} {t : Radix} : t.Full b → (t.insert k).Full b := by
  refine insert_induct k (P := fun t t' => t.Full b → t'.Full b) ?_ ?_ ?_ ?_ ?_ ?_ ?_ ?_ t
  · intro h
    exact h.elim
  · intro l r h
    exact h
  · intro p l r _ ih h
    exact h.imp (fun h => ⟨h.1, h.2.1, insert_ne_nil k r⟩) (Or.imp_right ih)
  · intro p l r _ ih h
    exact h.imp (fun h => ⟨h.1, insert_ne_nil k l, h.2.2⟩) (Or.imp_left ih)
  · intro p l r _ h
    exact .inr (.inr h)
  · intro p l r _ h
    exact .inr (.inl h)
  · intro c p l r _ _ h
    exact .inr (.inr h)
  · intro c p l r _ _ h
    exact .inr (.inl h)

/-- An insertion adds the key, and otherwise only a node with both branches. -/
theorem mem_insert {q k : List Bool} {t : Radix} :
    q ∈ (t.insert k).nodes → q ∈ t.nodes ∨ q = k ∨ (t.insert k).Full q := by
  refine insert_induct k (P := fun t t' => q ∈ t'.nodes → q ∈ t.nodes ∨ q = k ∨ t'.Full q)
    ?_ ?_ ?_ ?_ ?_ ?_ ?_ ?_ t
  · intro hq
    simp only [mem_node, nodes_nil, List.not_mem_nil, or_false] at hq
    exact .inr (.inl hq)
  · intro l r hq
    exact .inl hq
  · intro p l r _ ih hq
    rw [mem_node] at hq ⊢
    obtain hq | hq | hq := hq
    · exact .inl (.inl hq)
    · exact .inl (.inr (.inl hq))
    · exact (ih hq).imp (fun h => .inr (.inr h)) (Or.imp_right fun h => .inr (.inr h))
  · intro p l r _ ih hq
    rw [mem_node] at hq ⊢
    obtain hq | hq | hq := hq
    · exact .inl (.inl hq)
    · exact (ih hq).imp (fun h => .inr (.inl h)) (Or.imp_right fun h => .inr (.inl h))
    · exact .inl (.inr (.inr hq))
  · intro p l r _ hq
    rw [mem_node] at hq
    obtain hq | hq | hq := hq
    · exact .inr (.inl hq)
    · simp at hq
    · exact .inl hq
  · intro p l r _ hq
    rw [mem_node] at hq
    obtain hq | hq | hq := hq
    · exact .inr (.inl hq)
    · exact .inl hq
    · simp at hq
  · intro c p l r _ _ hq
    rw [mem_node, mem_node] at hq
    obtain rfl | (hq | hq | hq) | hq := hq
    · exact .inr (.inr (.inl ⟨rfl, by simp, by simp⟩))
    · exact .inr (.inl hq)
    · simp at hq
    · simp at hq
    · exact .inl hq
  · intro c p l r _ _ hq
    rw [mem_node] at hq
    obtain rfl | hq | hq := hq
    · exact .inr (.inr (.inl ⟨rfl, by simp, by simp⟩))
    · exact .inl hq
    · exact .inr (.inl (by simpa [nodes] using hq))

/-- The node after `b`: its left branch, else its right one, else `up`, what the way back up from the tree leads to. -/
def nextFrom (b : List Bool) (up : Option (List Bool)) : Radix → Option (List Bool)
  | nil => up
  | node p l r =>
    if p = b then (l.root?.or r.root?).or up
    else if bitAt b p.length then r.nextFrom b up
    else l.nextFrom b (r.root?.or up)

/-- The node after `b` in the whole tree. -/
def next (b : List Bool) (t : Radix) : Option (List Bool) :=
  t.nextFrom b none

/-- A place in the preorder of a tree is its root or a place in one of the branches. -/
theorem split_nodes {p b : List Bool} {l r : Radix} {xs ys : List (List Bool)}
    (h : (node p l r).nodes = xs ++ b :: ys) :
    (xs = [] ∧ b = p ∧ ys = l.nodes ++ r.nodes) ∨
    (∃ xs' ys', xs = p :: xs' ∧ l.nodes = xs' ++ b :: ys' ∧ ys = ys' ++ r.nodes) ∨
    (∃ xs', xs = p :: (l.nodes ++ xs') ∧ r.nodes = xs' ++ b :: ys) := by
  rw [nodes_node] at h
  cases xs with
  | nil =>
      simp only [List.nil_append, List.cons.injEq] at h
      exact .inl ⟨rfl, h.1.symm, h.2.symm⟩
  | cons x xs =>
      simp only [List.cons_append, List.cons.injEq] at h
      obtain ⟨rfl, h⟩ := h
      obtain ⟨as, rfl, hr⟩ | ⟨bs, hl, hbs⟩ := List.append_eq_append_iff.mp h
      · exact .inr (.inr ⟨as, rfl, hr⟩)
      · cases bs with
        | nil => exact .inr (.inr ⟨[], by simpa using hl.symm, by simpa using hbs.symm⟩)
        | cons c bs =>
            simp only [List.cons_append, List.cons.injEq] at hbs
            obtain ⟨rfl, rfl⟩ := hbs
            exact .inr (.inl ⟨xs, bs, rfl, hl, rfl⟩)

theorem nextFrom_eq {t : Radix} (ho : t.Ordered) {b : List Bool} {xs ys : List (List Bool)}
    (h : t.nodes = xs ++ b :: ys) (up : Option (List Bool)) : t.nextFrom b up = ys.head?.or up := by
  induction t generalizing xs ys up with
  | nil => simp at h
  | node p l r ihl ihr =>
      obtain ⟨-, rfl, rfl⟩ | ⟨xs', ys', -, hl, rfl⟩ | ⟨xs', -, hr⟩ := split_nodes h
      · simp [nextFrom, List.head?_append, head?_nodes]
      · obtain ⟨hne, hbit⟩ := ne_of_mem_left ho (b := b) (by simp [hl])
        simp only [nextFrom, hne, hbit, if_false, Bool.false_eq_true, ihl ho.2.2.1 hl]
        simp [List.head?_append, head?_nodes, Option.or_assoc]
      · obtain ⟨hne, hbit⟩ := ne_of_mem_right ho (b := b) (by simp [hr])
        simp only [nextFrom, hne, hbit, if_false, if_true, ihr ho.2.2.2 hr]

/-- `next` is the successor in the preorder. -/
theorem next_eq {t : Radix} (ho : t.Ordered) {b : List Bool} {xs ys : List (List Bool)}
    (h : t.nodes = xs ++ b :: ys) : t.next b = ys.head? := by
  simpa [next] using nextFrom_eq ho h none

/-- The node right above `b`. -/
def parent (b : List Bool) : Radix → Option (List Bool)
  | nil => none
  | node p l r =>
    if p = b then none
    else if bitAt b p.length then if r.root? = some b then some p else r.parent b
    else if l.root? = some b then some p else l.parent b

theorem parent_root {p : List Bool} {l r : Radix} : (node p l r).parent p = none := by
  simp [parent]

/-- The node above comes before. -/
theorem parent_mem {t : Radix} (ho : t.Ordered) {b : List Bool} {xs ys : List (List Bool)}
    (h : t.nodes = xs ++ b :: ys) : (xs = [] ∧ t.parent b = none) ∨ ∃ p ∈ xs, t.parent b = some p := by
  induction t generalizing xs ys with
  | nil => simp at h
  | node p l r ihl ihr =>
      obtain ⟨rfl, rfl, -⟩ | ⟨xs', ys', rfl, hl, -⟩ | ⟨xs', rfl, hr⟩ := split_nodes h
      · exact .inl ⟨rfl, parent_root⟩
      · obtain ⟨hne, hbit⟩ := ne_of_mem_left ho (b := b) (by simp [hl])
        have hroot : l.root? = (xs' ++ b :: ys').head? := by rw [← hl, head?_nodes]
        obtain ⟨rfl, -⟩ | ⟨q, hq, hpar⟩ := ihl ho.2.2.1 hl
        · refine .inr ⟨p, by simp, ?_⟩
          simp only [parent, hne, hbit, if_false, Bool.false_eq_true]
          rw [if_pos (by simpa using hroot)]
        · refine .inr ?_
          by_cases hb : l.root? = some b
          · exact ⟨p, by simp, by simp [parent, hne, hbit, hb]⟩
          · exact ⟨q, by simp [hq], by simp [parent, hne, hbit, hb, hpar]⟩
      · obtain ⟨hne, hbit⟩ := ne_of_mem_right ho (b := b) (by simp [hr])
        have hroot : r.root? = (xs' ++ b :: ys).head? := by rw [← hr, head?_nodes]
        obtain ⟨rfl, -⟩ | ⟨q, hq, hpar⟩ := ihr ho.2.2.2 hr
        · refine .inr ⟨p, by simp, ?_⟩
          simp only [parent, hne, hbit, if_false, if_true]
          rw [if_pos (by simpa using hroot)]
        · refine .inr ?_
          by_cases hb : r.root? = some b
          · exact ⟨p, by simp, by simp [parent, hne, hbit, hb]⟩
          · exact ⟨q, by simp [hq], by simp [parent, hne, hbit, hb, hpar]⟩

/-- The first subtree on the way to `k` whose topmost node is no prefix of it. -/
def descend (k : List Bool) : Radix → Radix
  | nil => nil
  | node p l r => if p <+: k then (if bitAt k p.length then r.descend k else l.descend k) else node p l r

theorem descend_of_root {t : Radix} {k c : List Bool} (h : t.root? = some c) (hc : ¬ c <+: k) :
    t.descend k = t := by
  cases t with
  | nil => rfl
  | node p l r =>
      obtain rfl : p = c := by simpa [root?] using h
      simp [descend, hc]

/-- Where the nodes that go on from `k` begin. -/
theorem descend_spec {t : Radix} {k : List Bool} (ho : t.Ordered) (hk : k ∈ t.nodes → t.Full k) :
    ((t.descend k).root? = none ∧ ∀ q ∈ t.nodes, ¬ k <+: q) ∨
    ∃ b xs ys, (t.descend k).root? = some b ∧ t.nodes = xs ++ b :: ys ∧ (∀ q ∈ xs, k <+: q → q = k) ∧
      (k <+: b ∨ ∀ q ∈ t.nodes, ¬ k <+: q) := by
  induction t with
  | nil => exact .inl ⟨rfl, by simp⟩
  | node p l r ihl ihr =>
      by_cases hp : p <+: k
      · by_cases hlen : p.length = k.length
        · -- the node of `k` itself: the walk goes on to its left branch, which there is
          obtain rfl : p = k := hp.eq_of_length hlen
          obtain ⟨hl, -⟩ := (hk (by simp [nodes])).branches ho
          obtain ⟨c, hc, hroot⟩ := root_mem hl
          have hbit : bitAt p p.length = false := by simp [bitAt]
          have hpc := ho.1 c hc
          refine .inr ⟨c, [p], (l.nodes ++ r.nodes).tail, ?_, ?_, by simp, ?_⟩
          · rw [descend, if_pos hp, hbit, if_neg Bool.false_ne_true, descend_of_root hroot, hroot]
            intro hcp
            exact absurd (hpc.trans hcp).length_le (by simp)
          · rw [nodes_node, List.singleton_append, List.cons.injEq]
            refine ⟨rfl, List.eq_cons_of_mem_head? ?_⟩
            simp [List.head?_append, head?_nodes, hroot]
          · exact .inl ((List.prefix_append p [false]).trans hpc)
        · have hnot : ¬ k <+: p := fun h => hlen (Nat.le_antisymm hp.length_le h.length_le)
          have hpk := prefix_bitAt hp hlen
          have hne : p ≠ k := fun h => hlen (h ▸ rfl)
          cases hbit : bitAt k p.length with
          | false =>
              rw [hbit] at hpk
              have hr : ∀ q ∈ r.nodes, ¬ k <+: q := fun q hq h => not_both (hpk.trans h) (ho.2.1 q hq)
              have hdesc : (node p l r).descend k = l.descend k := by simp [descend, hp, hbit]
              rw [hdesc]
              have hk' : k ∈ l.nodes → l.Full k := by
                intro hmem
                obtain ⟨h, -⟩ | h | h := hk (by simp [nodes, hmem])
                · exact absurd h hne
                · exact h
                · exact absurd List.prefix_rfl (hr k h.mem)
              obtain ⟨hroot, hno⟩ | ⟨b, xs, ys, hroot, hnodes, hxs, hb⟩ := ihl ho.2.2.1 hk'
              · refine .inl ⟨hroot, ?_⟩
                simp only [mem_node, or_imp, forall_and, forall_eq]
                exact ⟨hnot, hno, hr⟩
              · refine .inr ⟨b, p :: xs, ys ++ r.nodes, hroot, by simp [nodes, hnodes], ?_, ?_⟩
                · simp only [List.mem_cons, or_imp, forall_and, forall_eq]
                  exact ⟨fun h => absurd h hnot, hxs⟩
                · simp only [mem_node, or_imp, forall_and, forall_eq]
                  exact hb.imp_right fun h => ⟨hnot, h, hr⟩
          | true =>
              rw [hbit] at hpk
              have hl : ∀ q ∈ l.nodes, ¬ k <+: q := fun q hq h => not_both (ho.1 q hq) (hpk.trans h)
              have hdesc : (node p l r).descend k = r.descend k := by simp [descend, hp, hbit]
              rw [hdesc]
              have hk' : k ∈ r.nodes → r.Full k := by
                intro hmem
                obtain ⟨h, -⟩ | h | h := hk (by simp [nodes, hmem])
                · exact absurd h hne
                · exact absurd List.prefix_rfl (hl k h.mem)
                · exact h
              obtain ⟨hroot, hno⟩ | ⟨b, xs, ys, hroot, hnodes, hxs, hb⟩ := ihr ho.2.2.2 hk'
              · refine .inl ⟨hroot, ?_⟩
                simp only [mem_node, or_imp, forall_and, forall_eq]
                exact ⟨hnot, hl, hno⟩
              · refine .inr ⟨b, p :: (l.nodes ++ xs), ys, hroot, by simp [nodes, hnodes], ?_, ?_⟩
                · simp only [List.mem_cons, List.mem_append, or_imp, forall_and, forall_eq]
                  exact ⟨fun h => absurd h hnot, fun q hq h => absurd h (hl q hq), hxs⟩
                · simp only [mem_node, or_imp, forall_and, forall_eq]
                  exact hb.imp_right fun h => ⟨hnot, hl, h⟩
      · refine .inr ⟨p, [], l.nodes ++ r.nodes, by simp [descend, hp, root?], rfl, by simp, ?_⟩
        by_cases hkp : k <+: p
        · exact .inl hkp
        · refine .inr fun q hq hkq => ?_
          have hpq := ho.prefix_of_root List.prefix_rfl q hq
          obtain h | h := List.prefix_or_prefix_of_prefix hpq hkq
          · exact hp h
          · exact hkp h

end Radix

end Harry.Base
