import Mathlib.Data.Multiset.AddSub
import Mathlib.Order.Lattice

/-! Shortest paths by a search that takes the nearest candidate first and forgets about outdated candidates only when
it comes to them. A graph has for each vertex the vertices next to it, each with a function that says how the length of
a path grows by the step; lengths are any linear order. `Search` is the invariant of such a search: what is settled is
settled for good (`Search.settle`), and when no candidates are left, everything that can be reached is settled with its
least length (`Search.settled_iff`). -/

namespace Harry.Base

variable {ν κ : Type} [LinearOrder κ]

section Paths

variable (out : ν → List (ν × (κ → κ))) (root : ν) (zero : κ)

/-- There is a path of a length to a vertex. -/
inductive Reaches : ν → κ → Prop where
  | root : Reaches root zero
  | step {u : ν} {k : κ} {e : ν × (κ → κ)} (h : Reaches u k) (he : e ∈ out u) : Reaches e.1 (e.2 k)

/-- A length is the least one of the paths to a vertex. -/
def Least (v : ν) (k : κ) : Prop :=
  Reaches out root zero v k ∧ ∀ l, Reaches out root zero v l → k ≤ l

/-- A step makes no path shorter, and keeps the order of two paths. -/
structure Grows : Prop where
  le : ∀ u, ∀ e ∈ out u, ∀ k, k ≤ e.2 k
  mono : ∀ u, ∀ e ∈ out u, ∀ k l, k ≤ l → e.2 k ≤ e.2 l

/-- The state of a search: the vertices that are settled, each with its length, and the candidates. -/
structure Search (settled : ν → Option κ) (queue : Multiset (ν × κ)) : Prop where
  least : ∀ v k, settled v = some k → Least out root zero v k
  reaches : ∀ x ∈ queue, Reaches out root zero x.1 x.2
  ordered : ∀ u k, settled u = some k → ∀ x ∈ queue, k ≤ x.2
  closed : ∀ u k, settled u = some k → ∀ e ∈ out u, settled e.1 ≠ none ∨ (e.1, e.2 k) ∈ queue
  start : settled root ≠ none ∨ (root, zero) ∈ queue

end Paths

variable {out : ν → List (ν × (κ → κ))} {root v : ν} {zero k : κ} {settled : ν → Option κ} {queue : Multiset (ν × κ)}

theorem Least.unique {l : κ} (h : Least out root zero v k) (h' : Least out root zero v l) : k = l :=
  le_antisymm (h.2 l h'.1) (h'.2 k h.1)

/-- A search begins with the root as its only candidate. -/
theorem search_init : Search out root zero (fun _ => none) {(root, zero)} where
  least _ _ h := by simp at h
  reaches x hx := by
    obtain rfl := Multiset.mem_singleton.mp hx
    exact .root
  ordered _ _ h := by simp at h
  closed _ _ h := by simp at h
  start := .inr (Multiset.mem_singleton_self _)

/-- On every path to a vertex that is not settled there is a candidate. -/
theorem Search.frontier (h : Search out root zero settled queue) (hg : Grows out) {l : κ}
    (hr : Reaches out root zero v l) : settled v ≠ none ∨ ∃ x ∈ queue, x.2 ≤ l := by
  induction hr with
  | root => exact h.start.imp_right fun hm => ⟨_, hm, le_rfl⟩
  | @step u l e hu he ih =>
      obtain hsettled | ⟨x, hx, hxl⟩ := ih
      · obtain ⟨k, hk⟩ := Option.ne_none_iff_exists'.mp hsettled
        have hle := hg.mono u e he k l ((h.least u k hk).2 l hu)
        exact (h.closed u k hk e he).imp_right fun hm => ⟨_, hm, hle⟩
      · exact .inr ⟨x, hx, hxl.trans (hg.le u e he l)⟩

/-- A candidate for a vertex that is settled is dropped. -/
theorem Search.drop (h : Search out root zero settled ((v, k) ::ₘ queue)) (hv : settled v ≠ none) :
    Search out root zero settled queue where
  least := h.least
  reaches x hx := h.reaches x (Multiset.mem_cons_of_mem hx)
  ordered u l hu x hx := h.ordered u l hu x (Multiset.mem_cons_of_mem hx)
  closed u l hu e he := by
    obtain hsettled | hm := h.closed u l hu e he
    · exact .inl hsettled
    · obtain heq | hm := Multiset.mem_cons.mp hm
      · refine .inl ?_
        rw [(Prod.mk.inj heq).1]
        exact hv
      · exact .inr hm
  start := by
    obtain hsettled | hm := h.start
    · exact .inl hsettled
    · obtain heq | hm := Multiset.mem_cons.mp hm
      · refine .inl ?_
        rw [(Prod.mk.inj heq).1]
        exact hv
      · exact .inr hm

/-- The nearest candidate, if it is not settled, has its least length. -/
theorem Search.least_of_first (h : Search out root zero settled ((v, k) ::ₘ queue)) (hg : Grows out)
    (hmin : ∀ x ∈ queue, k ≤ x.2) (hv : settled v = none) : Least out root zero v k := by
  refine ⟨h.reaches _ (Multiset.mem_cons_self _ _), fun l hl => ?_⟩
  obtain hsettled | ⟨x, hx, hxl⟩ := h.frontier hg hl
  · exact absurd hv hsettled
  · obtain rfl | hx := Multiset.mem_cons.mp hx
    · exact hxl
    · exact (hmin x hx).trans hxl

/-- The nearest candidate is settled, and the vertices next to it become candidates. -/
theorem Search.settle [DecidableEq ν] (h : Search out root zero settled ((v, k) ::ₘ queue)) (hg : Grows out)
    (hmin : ∀ x ∈ queue, k ≤ x.2) (hv : settled v = none) :
    Search out root zero (Function.update settled v (some k))
      (queue + ((out v).map fun e => (e.1, e.2 k) : List (ν × κ))) := by
  have hleast := h.least_of_first hg hmin hv
  have hnew : ∀ x : ν × κ, x ∈ ((out v).map fun e => (e.1, e.2 k)) → ∃ e ∈ out v, x = (e.1, e.2 k) := by
    intro x hx
    obtain ⟨e, he, rfl⟩ := List.mem_map.mp hx
    exact ⟨e, he, rfl⟩
  have hle : ∀ u l, Function.update settled v (some k) u = some l → l ≤ k := by
    intro u l hu
    by_cases huv : u = v
    · subst huv
      rw [Function.update_self, Option.some.injEq] at hu
      exact hu.ge
    · rw [Function.update_of_ne huv] at hu
      exact h.ordered u l hu _ (Multiset.mem_cons_self _ _)
  have hsettled : ∀ u, settled u ≠ none → Function.update settled v (some k) u ≠ none := by
    intro u hu
    by_cases huv : u = v
    · simp [huv]
    · rwa [Function.update_of_ne huv]
  -- the candidate that is settled now was the only one that is missing
  have hold : ∀ x ∈ (v, k) ::ₘ queue, Function.update settled v (some k) x.1 ≠ none ∨
      x ∈ queue + ((out v).map fun e => (e.1, e.2 k) : List (ν × κ)) := by
    intro x hx
    obtain rfl | hx := Multiset.mem_cons.mp hx
    · exact .inl (by simp)
    · exact .inr (Multiset.mem_add.mpr (.inl hx))
  refine ⟨fun u l hu => ?_, fun x hx => ?_, fun u l hu x hx => ?_, fun u l hu e he => ?_, ?_⟩
  · by_cases huv : u = v
    · subst huv
      rw [Function.update_self, Option.some.injEq] at hu
      exact hu ▸ hleast
    · rw [Function.update_of_ne huv] at hu
      exact h.least u l hu
  · obtain hx | hx := Multiset.mem_add.mp hx
    · exact h.reaches x (Multiset.mem_cons_of_mem hx)
    · obtain ⟨e, he, rfl⟩ := hnew x (Multiset.mem_coe.mp hx)
      exact hleast.1.step he
  · refine (hle u l hu).trans ?_
    obtain hx | hx := Multiset.mem_add.mp hx
    · exact hmin x hx
    · obtain ⟨e, he, rfl⟩ := hnew x (Multiset.mem_coe.mp hx)
      exact hg.le v e he k
  · by_cases huv : u = v
    · subst huv
      rw [Function.update_self, Option.some.injEq] at hu
      subst hu
      exact .inr (Multiset.mem_add.mpr (.inr (Multiset.mem_coe.mpr (List.mem_map_of_mem he))))
    · rw [Function.update_of_ne huv] at hu
      obtain hs | hm := h.closed u l hu e he
      · exact .inl (hsettled _ hs)
      · exact hold _ hm
  · obtain hs | hm := h.start
    · exact .inl (hsettled _ hs)
    · exact hold _ hm

/-- When no candidates are left, the search has found what can be reached, and how far it is. -/
theorem Search.settled_iff (h : Search out root zero settled 0) (hg : Grows out) :
    settled v = some k ↔ Least out root zero v k := by
  refine ⟨h.least v k, fun hk => ?_⟩
  obtain hsettled | ⟨x, hx, -⟩ := h.frontier hg hk.1
  · obtain ⟨l, hl⟩ := Option.ne_none_iff_exists'.mp hsettled
    rw [hl, (h.least v l hl).unique hk]
  · exact absurd hx (Multiset.notMem_zero x)

theorem Search.reaches_iff (h : Search out root zero settled 0) (hg : Grows out) :
    settled v ≠ none ↔ ∃ l, Reaches out root zero v l := by
  constructor
  · intro hsettled
    obtain ⟨l, hl⟩ := Option.ne_none_iff_exists'.mp hsettled
    exact ⟨l, (h.least v l hl).1⟩
  · rintro ⟨l, hl⟩
    obtain hsettled | ⟨x, hx, -⟩ := h.frontier hg hl
    · exact hsettled
    · exact absurd hx (Multiset.notMem_zero x)

end Harry.Base
