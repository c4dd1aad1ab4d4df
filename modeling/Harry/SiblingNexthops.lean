import Mathlib.Data.List.GetD
import Mathlib.Data.List.TakeWhile
import Harry.BaseExec
import Harry.SiblingSpf

/-! The loops over `nexthop[OSPF6_MULTI_PATH_LIMIT]` in `ospf6_spf.c` and `ospf6_intra.c`, with the indices that they
read and write. A loop that copies looks at the element before it looks at the index; so it reads the element behind the
array if the array is full (`copyLoop_cells`, `mergeLoop_cells`). What is behind an array may be anything. -/

namespace Harry.Spf

open Harry.Base Harry.Routes

/-- An element of an array of next hops is read or written. -/
inductive HopAccess where
  | read (index : Nat)
  | write (index : Nat)
  deriving DecidableEq

def HopAccess.index : HopAccess → Nat
  | .read index => index
  | .write index => index

/-- The memory from `nexthop[0]` on. -/
abbrev Hops := Nat → Nexthop

/-- What `ospf6_nexthop_clear` leaves. -/
def clearNexthop : Nexthop :=
  ⟨0, List.replicate 16 0⟩

/-- An array whose first elements have been written and whose others are clear, with what is behind it. -/
def cells (l : List Nexthop) (behind : Hops) : Hops :=
  fun i => if i < multiPathLimit then l.getD i clearNexthop else behind i

/-- The loop that copies next hops up to the first one that is not set. -/
def copyLoop (src : Hops) : Nat → Nat → Hops → Exec HopAccess Hops
  | 0, _, _ => Exec.undefined
  | n + 1, i, dst => do
    Exec.emit (.read i)
    if Nexthop.isSet (src i) ∧ i < multiPathLimit then do
      Exec.emits [.read i, .write i]
      copyLoop src n (i + 1) (Function.update dst i (src i))
    else pure dst

/-- The inner loop of `ospf6_spf_install`, which looks for the place of a next hop. -/
def mergeInner (nexthop : Nexthop) : Nat → Nat → Hops → Exec HopAccess Hops
  | 0, _, _ => Exec.undefined
  | n + 1, j, dst =>
    if j < multiPathLimit then do
      Exec.emit (.read j)
      if Nexthop.isSet (dst j) then
        if dst j = nexthop then pure dst else mergeInner nexthop n (j + 1) dst
      else do
        Exec.emit (.write j)
        pure (Function.update dst j nexthop)
    else pure dst

/-- The outer loop of `ospf6_spf_install`. -/
def mergeLoop (src : Hops) : Nat → Nat → Hops → Exec HopAccess Hops
  | 0, _, _ => Exec.undefined
  | n + 1, i, dst => do
    Exec.emit (.read i)
    if Nexthop.isSet (src i) ∧ i < multiPathLimit then do
      Exec.emit (.read i)
      let dst ← mergeInner (src i) (multiPathLimit + 1) 0 dst
      mergeLoop src n (i + 1) dst
    else pure dst

/-- The loop of `ospf6_nexthop_calc` over the Link-LSAs of a router. -/
def linkLoop (ifindex : UInt32) : List SpfLsa → Nat → Hops → Exec HopAccess Hops
  | [], _, dst => pure dst
  | lsa :: lsas, i, dst =>
    if i < multiPathLimit then do
      Exec.emit (.write i)
      linkLoop ifindex lsas (i + 1) (Function.update dst i ⟨ifindex, linklocalAddr lsa⟩)
    else linkLoop ifindex lsas i dst

/-- No access is behind the end of the array. -/
def InBounds (x : Exec HopAccess Hops) : Prop :=
  ∀ a ∈ x.outs, a.index < multiPathLimit

section Bounds

variable {src dst : Hops} {n i k : Nat} {x : Exec HopAccess Hops}

theorem inBounds_emit_bind {a : HopAccess} {f : Unit → Exec HopAccess Hops} :
    InBounds (Exec.emit a >>= f) ↔ a.index < multiPathLimit ∧ InBounds (f ()) := by
  simp only [InBounds, Exec.outs_emit_bind, List.mem_cons, or_imp, forall_and, forall_eq]

theorem inBounds_pure (a : Hops) : InBounds (pure a) := by
  simp [InBounds]

/-- A loop that copies stops in front of the first element that is not set, or behind the array. -/
theorem copyLoop_spec (hset : ∀ j, i ≤ j → j < k → Nexthop.isSet (src j)) (hk : k ≤ multiPathLimit)
    (hstop : k < multiPathLimit → ¬ Nexthop.isSet (src k)) (hik : i ≤ k) (hn : k - i < n) :
    (copyLoop src n i dst).result = some (fun j => if i ≤ j ∧ j < k then src j else dst j) ∧
      (InBounds (copyLoop src n i dst) ↔ k < multiPathLimit) := by
  induction n generalizing i dst with
  | zero => omega
  | succ n ih =>
      rw [copyLoop]
      by_cases hi : i = k
      · subst hi
        have hend : ¬ (Nexthop.isSet (src i) ∧ i < multiPathLimit) := fun h => hstop h.2 h.1
        rw [if_neg hend]
        refine ⟨?_, inBounds_emit_bind.trans (and_iff_left (inBounds_pure _))⟩
        simp only [Exec.result_bind, Exec.result_emit, Option.bind_some, Exec.result_pure, Option.some.injEq]
        funext j
        rw [if_neg (by omega)]
      · have hlt : i < multiPathLimit := by omega
        obtain ⟨hres, hin⟩ := @ih (Function.update dst i (src i)) (i + 1) (fun j hj => hset j (by omega)) (by omega)
          (by omega)
        rw [if_pos ⟨hset i le_rfl (by omega), hlt⟩]
        constructor
        · simp only [Exec.result_bind, Exec.result_emit, Exec.result_emits, Option.bind_some, hres, Option.some.injEq]
          funext j
          by_cases hj : j = i
          · subst hj
            rw [if_neg (by omega), if_pos (by omega), Function.update_self]
          · rw [Function.update_of_ne hj]
            refine if_congr ?_ rfl rfl
            omega
        · rw [inBounds_emit_bind, ← hin]
          simp only [InBounds, Exec.outs_emits_bind, List.mem_append, List.mem_cons, List.not_mem_nil, or_false, or_imp,
            forall_and, forall_eq, HopAccess.index, hlt, true_and]

end Bounds

/-! ### What the arrays hold -/

section Cells

variable {l r : List Nexthop} {behind : Hops} {nexthop : Nexthop} {n i j : Nat}

theorem cells_of_lt (hi : i < multiPathLimit) : cells l behind i = l.getD i clearNexthop :=
  if_pos hi

theorem not_isSet_clear : ¬ Nexthop.isSet clearNexthop := by decide

theorem cells_concat (hl : l.length < multiPathLimit) :
    cells (l ++ [nexthop]) behind = Function.update (cells l behind) l.length nexthop := by
  funext j
  by_cases hj : j = l.length
  · subst hj
    rw [Function.update_self, cells_of_lt hl]
    simp
  · rw [Function.update_of_ne hj, cells, cells]
    refine if_congr Iff.rfl ?_ rfl
    simp only [List.getD_eq_getElem?_getD]
    by_cases hlt : j < l.length
    · rw [List.getElem?_append_left hlt]
    · rw [List.getElem?_append_right (by omega), List.getElem?_eq_none (by simp; omega),
        List.getElem?_eq_none (by omega)]

/-- The next hops that are copied are a prefix of those that there are. -/
theorem setNexthops_isPrefix (l : List Nexthop) : setNexthops l <+: l :=
  (List.take_prefix _ _).trans (List.takeWhile_prefix _)

theorem length_setNexthops_le (l : List Nexthop) : (setNexthops l).length ≤ multiPathLimit := by
  simp [setNexthops]

theorem isSet_of_mem_setNexthops (h : nexthop ∈ setNexthops l) : Nexthop.isSet nexthop :=
  List.mem_takeWhile_imp (List.mem_of_mem_take h)

theorem setNexthops_eq_self (hset : ∀ x ∈ l, Nexthop.isSet x) (hl : l.length ≤ multiPathLimit) : setNexthops l = l := by
  rw [setNexthops, List.takeWhile_eq_self_iff.mpr hset, List.take_of_length_le hl]

/-- An element that is copied. -/
theorem cells_setNexthops (hj : j < (setNexthops l).length) : cells l behind j = cells (setNexthops l) behind j := by
  have hlt := hj.trans_le (length_setNexthops_le l)
  rw [cells_of_lt hlt, cells_of_lt hlt, List.getD_eq_getElem?_getD, List.getD_eq_getElem?_getD,
    List.prefix_iff_getElem?.mp (setNexthops_isPrefix l) j hj, List.getElem?_eq_getElem hj]

theorem isSet_cells (hj : j < (setNexthops l).length) : Nexthop.isSet (cells l behind j) := by
  rw [cells_setNexthops hj, cells_of_lt (hj.trans_le (length_setNexthops_le l)), List.getD_eq_getElem _ _ hj]
  exact isSet_of_mem_setNexthops (List.getElem_mem hj)

/-- Behind the elements that are copied there is one that is not set, unless the array is full. -/
theorem not_isSet_cells (h : (setNexthops l).length < multiPathLimit) :
    ¬ Nexthop.isSet (cells l behind (setNexthops l).length) := by
  have hlen : (setNexthops l).length = (l.takeWhile Nexthop.isSet).length := by
    rw [setNexthops, List.length_take] at h ⊢
    omega
  rw [cells_of_lt h, hlen, List.getD_eq_getElem?_getD]
  have hsplit := List.takeWhile_append_dropWhile (p := Nexthop.isSet) (l := l)
  have hhead : l[(l.takeWhile Nexthop.isSet).length]? = (l.dropWhile Nexthop.isSet).head? := by
    conv => lhs; rw [← hsplit]
    rw [List.getElem?_append_right (by simp), List.head?_eq_getElem?]
    simp
  rw [hhead]
  cases hdrop : l.dropWhile Nexthop.isSet with
  | nil => exact not_isSet_clear
  | cons a rest =>
      have hnot := List.head?_dropWhile_not Nexthop.isSet l
      rw [hdrop] at hnot
      simpa using hnot

/-- What a loop copies out of an array into a clear one, and whether it stays inside. -/
theorem copyLoop_cells (l : List Nexthop) (behind behind' : Hops) :
    (copyLoop (cells l behind) (multiPathLimit + 1) 0 (cells [] behind')).result =
        some (cells (setNexthops l) behind') ∧
      (InBounds (copyLoop (cells l behind) (multiPathLimit + 1) 0 (cells [] behind')) ↔
        (setNexthops l).length < multiPathLimit) := by
  have hle := length_setNexthops_le l
  obtain ⟨hres, hin⟩ := @copyLoop_spec (cells l behind) (cells [] behind') (multiPathLimit + 1) 0
    (setNexthops l).length (fun j _ hj => isSet_cells hj) hle not_isSet_cells (Nat.zero_le _)
    (by omega)
  refine ⟨hres.trans (congrArg some (funext fun j => ?_)), hin⟩
  by_cases hj : j < (setNexthops l).length
  · rw [if_pos ⟨Nat.zero_le _, hj⟩, cells_setNexthops hj, cells_of_lt (hj.trans_le hle),
      cells_of_lt (hj.trans_le hle)]
  · rw [if_neg (by omega), cells, cells]
    refine if_congr Iff.rfl ?_ rfl
    rw [List.getD_eq_default _ _ (by simp), List.getD_eq_default _ _ (by omega)]

/-- The next hops of a route: all of them are set, none is there twice, and they have room. -/
structure Routed (r : List Nexthop) : Prop where
  set : ∀ x ∈ r, Nexthop.isSet x
  nodup : r.Nodup
  room : r.length ≤ multiPathLimit

theorem Routed.merge (h : Routed r) (hset : Nexthop.isSet nexthop) : Routed (mergeNexthop r nexthop) := by
  rw [mergeNexthop]
  split_ifs with hmem hlen
  · exact h
  · refine ⟨fun x hx => ?_, ?_, by simpa using Nat.succ_le_of_lt hlen⟩
    · obtain hx | rfl := (List.mem_append.mp hx).imp_right List.mem_singleton.mp
      · exact h.set x hx
      · exact hset
    · rw [List.nodup_append]
      refine ⟨h.nodup, by simp, fun a ha b hb => ?_⟩
      rintro rfl
      exact hmem (List.mem_singleton.mp hb ▸ ha)
  · exact h

theorem Routed.mergeAll (h : Routed r) (hset : ∀ x ∈ l, Nexthop.isSet x) : Routed (l.foldl mergeNexthop r) := by
  induction l generalizing r with
  | nil => exact h
  | cons x l ih => exact ih (h.merge (hset x (by simp))) fun y hy => hset y (by simp [hy])

theorem mergeInner_cells (h : Routed r) (hj : j ≤ r.length) (hfresh : nexthop ∉ r.take j) (hn : multiPathLimit < n + j) :
    (mergeInner nexthop n j (cells r behind)).result = some (cells (mergeNexthop r nexthop) behind) ∧
      InBounds (mergeInner nexthop n j (cells r behind)) := by
  have hroom := h.room
  induction n generalizing j with
  | zero => omega
  | succ n ih =>
      rw [mergeInner]
      by_cases hlt : j < multiPathLimit
      · rw [if_pos hlt, inBounds_emit_bind]
        simp only [Exec.result_bind, Exec.result_emit, Option.bind_some]
        by_cases hjr : j < r.length
        · have hcell : cells r behind j = r[j] := by
            rw [cells_of_lt hlt, List.getD_eq_getElem _ _ hjr]
          rw [hcell, if_pos (h.set _ (List.getElem_mem hjr))]
          by_cases hsame : r[j] = nexthop
          · have hmem : nexthop ∈ r := hsame ▸ List.getElem_mem hjr
            rw [if_pos hsame, mergeNexthop, if_pos hmem]
            exact ⟨rfl, hlt, inBounds_pure _⟩
          · rw [if_neg hsame]
            have hfresh' : nexthop ∉ r.take (j + 1) := by
              rw [List.take_add_one, List.getElem?_eq_getElem hjr, List.mem_append]
              rintro (hmem | hmem)
              · exact hfresh hmem
              · exact hsame (by simpa using hmem : nexthop = r[j]).symm
            obtain ⟨hres, hin⟩ := ih hjr hfresh' (by omega)
            exact ⟨hres, hlt, hin⟩
        · obtain rfl : j = r.length := by omega
          have hcell : cells r behind r.length = clearNexthop := by
            rw [cells_of_lt hlt, List.getD_eq_default _ _ le_rfl]
          rw [List.take_length] at hfresh
          rw [hcell, if_neg not_isSet_clear, mergeNexthop, if_neg hfresh, if_pos hlt, cells_concat hlt]
          exact ⟨rfl, hlt, inBounds_emit_bind.mpr ⟨hlt, inBounds_pure _⟩⟩
      · obtain rfl : j = r.length := by omega
        rw [List.take_length] at hfresh
        rw [if_neg hlt, mergeNexthop, if_neg hfresh, if_neg hlt]
        exact ⟨rfl, inBounds_pure _⟩

theorem inBounds_bind {x : Exec HopAccess Hops} {f : Hops → Exec HopAccess Hops} {a : Hops} (h : x.result = some a) :
    InBounds (x >>= f) ↔ InBounds x ∧ InBounds (f a) := by
  rw [InBounds, InBounds, InBounds, Exec.bind_of_some f h]
  simp only [List.mem_append, or_imp, forall_and]

theorem mergeLoop_spec (h : Routed r) {behind' : Hops} (hi : i ≤ (setNexthops l).length)
    (hn : (setNexthops l).length - i < n) :
    (mergeLoop (cells l behind) n i (cells r behind')).result =
        some (cells (((setNexthops l).drop i).foldl mergeNexthop r) behind') ∧
      (InBounds (mergeLoop (cells l behind) n i (cells r behind')) ↔ (setNexthops l).length < multiPathLimit) := by
  have hle := length_setNexthops_le l
  induction n generalizing i r with
  | zero => omega
  | succ n ih =>
      rw [mergeLoop, inBounds_emit_bind]
      simp only [Exec.result_bind, Exec.result_emit, Option.bind_some]
      by_cases hlt : i < (setNexthops l).length
      · have hset : Nexthop.isSet (cells l behind i) := isSet_cells hlt
        have hcell : cells l behind i = (setNexthops l)[i] := by
          rw [cells_setNexthops hlt, cells_of_lt (by omega), List.getD_eq_getElem _ _ hlt]
        have hlimit : i < multiPathLimit := by omega
        obtain ⟨hinner, hbounds⟩ := @mergeInner_cells r behind' (cells l behind i) (multiPathLimit + 1) 0 h
          (Nat.zero_le _) (by simp) (by omega)
        obtain ⟨hres, hin⟩ := ih (h.merge hset) (i := i + 1) hlt (by omega)
        rw [if_pos ⟨hset, hlimit⟩, inBounds_emit_bind, inBounds_bind hinner, hin]
        simp only [Exec.result_bind, Exec.result_emit, Option.bind_some, hinner, hres]
        rw [List.drop_eq_getElem_cons hlt, List.foldl_cons, hcell]
        rw [hcell] at hbounds
        exact ⟨rfl, by simp [HopAccess.index, hlimit, hbounds]⟩
      · obtain rfl : i = (setNexthops l).length := by omega
        have hend : ¬ (Nexthop.isSet (cells l behind (setNexthops l).length) ∧ (setNexthops l).length < multiPathLimit) :=
          fun h => not_isSet_cells h.2 h.1
        rw [if_neg hend, List.drop_length]
        exact ⟨rfl, and_iff_left (inBounds_pure _)⟩

/-- What the loop of `ospf6_spf_install` makes of the next hops of a route, and whether it stays inside. -/
theorem mergeLoop_cells (l : List Nexthop) (behind behind' : Hops) (h : Routed r) :
    (mergeLoop (cells l behind) (multiPathLimit + 1) 0 (cells r behind')).result =
        some (cells ((setNexthops l).foldl mergeNexthop r) behind') ∧
      (InBounds (mergeLoop (cells l behind) (multiPathLimit + 1) 0 (cells r behind')) ↔
        (setNexthops l).length < multiPathLimit) :=
  mergeLoop_spec h (Nat.zero_le _) (Nat.lt_succ_of_le (length_setNexthops_le l))

/-- What `ospf6_nexthop_calc` writes: the addresses of as many Link-LSAs as there is room for. -/
theorem linkLoop_cells (ifindex : UInt32) (lsas : List SpfLsa) (hl : l.length ≤ multiPathLimit) :
    (linkLoop ifindex lsas l.length (cells l behind)).result = some (cells (l ++
        (lsas.take (multiPathLimit - l.length)).map fun lsa => ⟨ifindex, linklocalAddr lsa⟩) behind) ∧
      InBounds (linkLoop ifindex lsas l.length (cells l behind)) := by
  induction lsas generalizing l with
  | nil => exact ⟨by simp [linkLoop], inBounds_pure _⟩
  | cons lsa lsas ih =>
      rw [linkLoop]
      by_cases hlt : l.length < multiPathLimit
      · obtain ⟨hres, hin⟩ := ih (l := l ++ [⟨ifindex, linklocalAddr lsa⟩])
          (by simpa using Nat.succ_le_of_lt hlt)
        rw [cells_concat hlt, List.length_append, List.length_singleton] at hres hin
        rw [if_pos hlt, inBounds_emit_bind]
        refine ⟨?_, hlt, hin⟩
        obtain ⟨m, hm⟩ : ∃ m, multiPathLimit - l.length = m + 1 := ⟨multiPathLimit - l.length - 1, by omega⟩
        have hm' : multiPathLimit - (l.length + 1) = m := by omega
        simp only [Exec.result_bind, Exec.result_emit, Option.bind_some, hres, hm, hm', List.take_succ_cons,
          List.map_cons, List.append_assoc, List.singleton_append]
      · obtain ⟨hres, hin⟩ := ih hl
        have hzero : multiPathLimit - l.length = 0 := by omega
        rw [if_neg hlt]
        rw [hzero, List.take_zero] at hres ⊢
        exact ⟨hres, hin⟩

end Cells

/-- In front of a next hop that is set there are only set ones, and none that is the same. -/
def Compact (a : Hops) : Prop :=
  ∀ j < multiPathLimit, Nexthop.isSet (a j) → ∀ i < j, Nexthop.isSet (a i) ∧ a i ≠ a j

/-- A Link-LSA whose next hop over an interface is set. -/
def Shown (ifindex : UInt32) (lsa : SpfLsa) : Prop :=
  ifindex ≠ 0 ∨ ∃ b ∈ linklocalAddr lsa, b ≠ 0

/-- Among the first Link-LSAs, as many as there is room for, no two show the same address; only over an interface with
the index zero an address may be zero, and then no other follows. -/
def Apart (ifindex : UInt32) (lsas : List SpfLsa) : Prop :=
  (lsas.take multiPathLimit).Pairwise fun a b =>
    Shown ifindex b → Shown ifindex a ∧ linklocalAddr a ≠ linklocalAddr b

section Compact

variable {l : List Nexthop} {behind : Hops}

theorem Routed.compact (h : Routed l) : Compact (cells l behind) := by
  intro j hj hset i hij
  rw [cells_of_lt hj] at hset ⊢
  rw [cells_of_lt (hij.trans hj)]
  have hjl : j < l.length := by
    by_contra hno
    rw [List.getD_eq_default _ _ (by omega)] at hset
    exact not_isSet_clear hset
  have hil := hij.trans hjl
  rw [List.getD_eq_getElem _ _ hjl, List.getD_eq_getElem _ _ hil]
  exact ⟨h.set _ (List.getElem_mem hil), fun heq => absurd (h.nodup.getElem_inj_iff.mp heq) (by omega)⟩

theorem Compact.routed (h : Compact (cells l behind)) : Routed (setNexthops l) := by
  refine ⟨fun x => isSet_of_mem_setNexthops, ?_, length_setNexthops_le l⟩
  have hle := length_setNexthops_le l
  rw [List.Nodup, List.pairwise_iff_getElem]
  intro i j hi hj hij
  have hne := (h j (by omega) (isSet_cells hj) i hij).2
  rwa [cells_setNexthops hi, cells_setNexthops hj, cells_of_lt (by omega), cells_of_lt (by omega),
    List.getD_eq_getElem _ _ hi, List.getD_eq_getElem _ _ hj] at hne

theorem Routed.setNexthops (h : Routed l) : Routed (setNexthops l) := by
  rwa [setNexthops_eq_self h.set h.room]

theorem compact_links_iff (ifindex : UInt32) (lsas : List SpfLsa) :
    Compact (cells ((lsas.take multiPathLimit).map fun lsa => ⟨ifindex, linklocalAddr lsa⟩) behind) ↔
      Apart ifindex lsas := by
  have hlen : (lsas.take multiPathLimit).length ≤ multiPathLimit := by simp
  rw [Apart, List.pairwise_iff_getElem]
  generalize lsas.take multiPathLimit = taken at hlen
  have hcell : ∀ (i : Nat) (hi : i < taken.length),
      cells (taken.map fun lsa => ⟨ifindex, linklocalAddr lsa⟩) behind i = ⟨ifindex, linklocalAddr taken[i]⟩ := by
    intro i hi
    rw [cells_of_lt (by omega), List.getD_eq_getElem _ _ (by simpa using hi), List.getElem_map]
  have hshown : ∀ lsa, Nexthop.isSet ⟨ifindex, linklocalAddr lsa⟩ = true ↔ Shown ifindex lsa := by
    intro lsa
    simp [Nexthop.isSet, Shown]
  constructor
  · intro h i j hi hj hij hset
    have hij' := h j (by omega) (by rw [hcell j hj, hshown]; exact hset) i hij
    rw [hcell i hi, hcell j hj, hshown] at hij'
    exact ⟨hij'.1, fun heq => hij'.2 (by rw [heq])⟩
  · intro h j hj hset i hij
    have hjl : j < taken.length := by
      by_contra hno
      rw [cells_of_lt hj, List.getD_eq_default _ _ (by simpa using hno)] at hset
      exact not_isSet_clear hset
    rw [hcell j hjl, hshown] at hset
    rw [hcell j hjl, hcell i (hij.trans hjl), hshown]
    obtain ⟨hi, hne⟩ := h i j (hij.trans hjl) hjl hij hset
    exact ⟨hi, fun heq => hne (by simpa using heq)⟩

end Compact

end Harry.Spf
