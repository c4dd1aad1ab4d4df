import Harry.SiblingLsdbTree
import Harry.SiblingRouteBest

/-! Who holds the nodes of a tree between two operations. The functions that add an entry lock its node, and keep the
lock for the entry; the loops give back what they lock. A lookup that finds something keeps the node it has found, and a
removal, which begins with a lookup, gives back no more than that: the lock of the entry stays on the node. -/

namespace Harry.Table

open Harry.Base

variable {α : Type} {t : RouteTable α} {b : List Bool}

/-- A node is locked once if something hangs on it and not at all otherwise. What hangs on a node is in the tree, and
where there is nothing left the tree is empty. -/
structure Reclaimed (t : RouteTable α) : Prop where
  lock : ∀ b ∈ t.top.nodes, t.lock b = if (t.info b).isSome then 1 else 0
  stays : ∀ b, (t.info b).isSome → b ∈ t.top.nodes
  gone : (∀ b, t.info b = none) → t.top = .nil

/-- A tree that is not empty has a node with less than two branches. -/
theorem exists_not_full {t : Radix} (ho : t.Ordered) (hne : t ≠ .nil) : ∃ b ∈ t.nodes, ¬ t.Full b := by
  induction t with
  | nil => exact absurd rfl hne
  | node p l r ihl ihr =>
      by_cases hl : l = .nil
      · by_cases hr : r = .nil
        · subst hl hr
          exact ⟨p, by simp [Radix.nodes_node], fun h => by simp [Radix.Full] at h⟩
        · obtain ⟨b, hb, hfull⟩ := ihr ho.2.2.2 hr
          have hbr := Radix.ne_of_mem_right ho hb
          refine ⟨b, Radix.mem_node.mpr (.inr (.inr hb)), fun h => ?_⟩
          obtain ⟨hpb, -⟩ | h | h := h
          · exact hbr.1 hpb
          · rw [hl] at h
            exact h
          · exact hfull h
      · obtain ⟨b, hb, hfull⟩ := ihl ho.2.2.1 hl
        have hbl := Radix.ne_of_mem_left ho hb
        refine ⟨b, Radix.mem_node.mpr (.inr (.inl hb)), fun h => ?_⟩
        obtain ⟨hpb, -⟩ | h | h := h
        · exact hbl.1 hpb
        · exact hfull h
        · have hbr := Radix.ne_of_mem_right ho h.mem
          rw [hbl.2] at hbr
          exact absurd hbr.2 (by decide)

/-- Where no node can go that somebody needs, the locks say it all. -/
theorem Kept.reclaimed (h : Kept t) (hlock : ∀ b ∈ t.top.nodes, t.lock b = if (t.info b).isSome then 1 else 0) :
    Reclaimed t := by
  refine ⟨hlock, fun b hb => h.mem_of_info (Option.isSome_iff_ne_none.mp hb), fun hnone => ?_⟩
  by_contra hne
  obtain ⟨b, hb, hfull⟩ := exists_not_full h.ordered hne
  obtain hpos | ⟨-, hf⟩ := h.held b hb
  · rw [hlock b hb, hnone b] at hpos
    exact absurd hpos (by simp)
  · exact hfull hf

theorem reclaimed_init : Reclaimed (routeTableInit : RouteTable α) :=
  Kept.init.reclaimed (by simp [routeTableInit])

/-- What hangs on the nodes may change, but not on which. -/
theorem Reclaimed.congr {t' : RouteTable α} (h : Reclaimed t) (hk : Kept t') (htop : t'.top = t.top)
    (hlock : t'.lock = t.lock) (hinfo : ∀ b, (t'.info b).isSome = (t.info b).isSome) : Reclaimed t' :=
  hk.reclaimed fun b hb => by
    rw [hlock, hinfo]
    exact h.lock b (htop ▸ hb)

/-- The node of a new entry is locked for the entry. -/
theorem Reclaimed.get {t' : RouteTable α} (h : Reclaimed t) (hk : Kept t') (hb : t.info b = none)
    (htop : t'.top = (routeNodeGet t b).top) (hlock : t'.lock = (routeNodeGet t b).lock)
    (hself : (t'.info b).isSome) (hinfo : ∀ c, c ≠ b → (t'.info c).isSome = (t.info c).isSome) : Reclaimed t' := by
  refine hk.reclaimed fun c hc => ?_
  rw [hlock]
  by_cases hcb : c = b
  · subst hcb
    rw [hself]
    by_cases hmem : c ∈ t.top.nodes
    · simp [routeNodeGet, routeLockNode, hmem, h.lock c hmem, hb]
    · simp [routeNodeGet, routeLockNode, hmem]
  · rw [hinfo c hcb]
    by_cases hmem : c ∈ t.top.nodes
    · simp [routeNodeGet, routeLockNode, Function.update_of_ne hcb, hmem, h.lock c hmem]
    · have hnone : ¬ (t.info c).isSome := fun hsome => hmem (h.stays c hsome)
      simp [routeNodeGet, routeLockNode, Function.update_of_ne hcb, hmem, hnone]

/-- A node that is locked more often than once, or with nothing on it, is not reclaimed. -/
theorem not_reclaimed (hb : b ∈ t.top.nodes) (hlock : 1 < t.lock b ∨ 0 < t.lock b ∧ t.info b = none) :
    ¬ Reclaimed t := by
  intro h
  have heq := h.lock b hb
  obtain hone | ⟨hpos, hnone⟩ := hlock
  · split at heq <;> omega
  · rw [hnone] at heq
    simp at heq
    omega

/-- What a lookup has locked, given back when nothing hangs on the node any more. -/
theorem routeUnlockNode_setInfo {i : Option α} (hb : 0 < t.lock b) :
    routeUnlockNode ((routeLockNode t b).setInfo b i) b = some (t.setInfo b i) := by
  obtain ⟨n, hn⟩ : ∃ n, t.lock b = n + 1 := ⟨t.lock b - 1, by omega⟩
  have hback : Function.update t.lock b (n + 1) = t.lock := by rw [← hn, Function.update_eq_self]
  simp [routeUnlockNode, routeLockNode, RouteTable.setInfo, hn, hback]

end Harry.Table

namespace Harry.LsdbTree

open Harry.Base Harry.Table Harry.Rfp Harry.Sibling

section Frame

variable {s s' : Db} {a : Addr} {l m : List Addr}

theorem lsaUnlock_table (h : lsaUnlock s a = some s') : s'.table = s.table := by
  simp only [lsaUnlock, Option.ite_none_right_eq_some, Option.some.injEq] at h
  rw [← h.2]
  rfl

theorem lsaLock?_table {o : Option Addr} (h : lsaLock? s o = some s') : s'.table = s.table := by
  cases o with
  | none => exact congrArg Db.table (Option.some.inj h).symm
  | some a =>
      simp only [lsaLock?, lsaLock, Option.ite_none_right_eq_some, Option.some.injEq] at h
      rw [← h.2]
      rfl

theorem setNext_table {o v : Option Addr} (h : setNext s o v = some s') : s'.table = s.table := by
  simp only [setNext, Option.ite_none_right_eq_some, Option.some.injEq] at h
  rw [← h.2]

theorem setPrev_table {o v : Option Addr} (h : setPrev s o v = some s') : s'.table = s.table := by
  simp only [setPrev, Option.ite_none_right_eq_some, Option.some.injEq] at h
  rw [← h.2]

theorem lsdbNext_table {o : Option Addr} (h : lsdbNext s a = some (s', o)) : s'.table = s.table := by
  simp only [lsdbNext, Option.bind_eq_bind, Option.bind_eq_some_iff, Option.pure_def, Option.some.injEq,
    Prod.mk.injEq] at h
  obtain ⟨s₁, hun, s₂, hlock, rfl, -⟩ := h
  rw [lsaLock?_table hlock, lsaUnlock_table hun]

theorem lsdbRangeNext_table {same : LsaKey → Bool} {o : Option Addr} (h : lsdbRangeNext same s a = some (s', o)) :
    s'.table = s.table := by
  simp only [lsdbRangeNext, Option.ite_none_right_eq_some, Option.bind_eq_bind, Option.bind_eq_some_iff,
    Option.pure_def, Option.some.injEq, Prod.mk.injEq] at h
  obtain ⟨-, s₁, hlock, s₂, hun, rfl, -⟩ := h
  rw [lsaUnlock_table hun, lsaLock?_table hlock]

/-- A loop that only looks leaves the tree as it was. -/
theorem loopFrom_table {next : Db → Addr → Option (Db × Option Addr)}
    (hnext : ∀ s a s' o, next s a = some (s', o) → s'.table = s.table) {n : Nat} {o : Option Addr}
    (h : loopFrom (fun s _ => some s) next n s o = some (s', l)) : s'.table = s.table := by
  induction n generalizing s o l with
  | zero =>
      cases o with
      | none =>
          simp only [loopFrom, Option.some.injEq, Prod.mk.injEq] at h
          rw [h.1]
      | some a => simp [loopFrom] at h
  | succ n ih =>
      cases o with
      | none =>
          simp only [loopFrom, Option.some.injEq, Prod.mk.injEq] at h
          rw [h.1]
      | some a =>
          simp only [loopFrom, Option.bind_eq_bind, Option.bind_some, Option.bind_eq_some_iff, Option.pure_def,
            Option.some.injEq, Prod.mk.injEq, Prod.exists] at h
          obtain ⟨s₁, c, hstep, s₂, l', hloop, rfl, -⟩ := h
          rw [ih hloop, hnext _ _ _ _ hstep]

end Frame

section Step

variable {s s' : Db} {expired : Addr → Bool} {a : Addr} {l : List Addr}

theorem Rep.add_table (h : Rep s none l) (hlive : s.live a = true) (hadd : lsdbAdd s expired a = some s') :
    s'.table = treeAdd s a := by
  obtain ⟨xs, ys, as, m, bs, hnodes, rfl, hxs, hys, hms⟩ := h.place (s.key a)
  cases hk : s.table.info (nodeOf (s.key a)) with
  | none =>
      obtain rfl : m = [] := by simpa [hk] using hms.symm
      rw [(h.add_new hlive hnodes hxs hys hk).1, Option.some.injEq] at hadd
      rw [← hadd]
      rfl
  | some o =>
      obtain rfl : m = [o] := by simpa [hk] using hms.symm
      rw [(Rep.add_old (by simpa using h) hlive hnodes hxs hys hk).1, Option.ite_none_right_eq_some,
        Option.some.injEq] at hadd
      rw [← hadd.2]
      rfl

theorem Rep.remove_table (h : Rep s none l) (hrem : lsdbRemove s a = some s') :
    nodeOf (s.key a) ∈ s.table.top.nodes ∧ 0 < s.table.lock (nodeOf (s.key a)) ∧
      s'.table = s.table.setInfo (nodeOf (s.key a)) none := by
  rw [lsdbRemove, h.kept.routeNodeLookup] at hrem
  by_cases hk : s.table.info (nodeOf (s.key a)) = none
  · simp [hk] at hrem
  · have hpos := h.kept.pos_of_info hk
    refine ⟨h.kept.mem_of_info hk, hpos, ?_⟩
    simp only [hk, if_false, Option.ite_none_right_eq_some, Option.bind_eq_bind, Option.bind_eq_some_iff,
      Option.pure_def, Option.some.injEq] at hrem
    obtain ⟨-, s₁, hnext, s₂, hprev, s₃, hun, t, ht, rfl⟩ := hrem
    rw [lsaUnlock_table hun, setPrev_table hprev, setNext_table hnext, routeUnlockNode_setInfo hpos,
      Option.some.injEq] at ht
    exact ht.symm

theorem Rep.iterate_table (h : Rep s none l) (hsweep : LsdbTree.sweep (fun _ => false) s = some (s', l)) :
    s'.table = s.table := by
  obtain ⟨s₁, hhead, -, -, htable⟩ := h.lsdbHead
  simp only [LsdbTree.sweep, hhead, Option.bind_eq_bind, Option.bind_some] at hsweep
  rw [← htable]
  exact loopFrom_table (fun _ _ _ _ => lsdbNext_table) (by simpa using hsweep)

/-- A walk over a range begins at a node that it gives back. -/
theorem Rep.rangeHead_table (h : Rep s none l) {k : List UInt8} (hk : k.length ≠ 10) {o : Option Addr}
    (hhead : lsdbRangeHead s k = some (s', o)) : s'.table = s.table := by
  have hlen : (byteBits k).length ≠ 80 := by
    rw [length_byteBits]
    omega
  have hrange := h.kept.rangeHead (k := byteBits k) (fun hmem => h.glue _ hmem hlen) (h.info_glue hlen)
  simp only [lsdbRangeHead, hrange, Option.bind_eq_bind, Option.bind_some, Option.bind_eq_some_iff, Option.pure_def,
    Option.some.injEq, Prod.mk.injEq] at hhead
  obtain ⟨s₁, hlock, rfl, -⟩ := hhead
  exact lsaLock?_table hlock

end Step

/-- What is done with a database, the loops over all of it or over a range without a change. -/
inductive Use where
  | create (a : Addr) (k : LsaKey) (length : UInt16) (headeronly : Bool)
  | add (a : Addr) (expired : Addr → Bool)
  | remove (a : Addr)
  | lookup (k : LsaKey)
  | iterate
  | iterateType (type : UInt16)
  | iterateTypeRouter (type : UInt16) (advRouter : UInt32)

def Use.op : Use → Op
  | .create a k length headeronly => .create a k length headeronly
  | .add a expired => .add a expired
  | .remove a => .remove a
  | .lookup k => .lookup k
  | .iterate => .sweep fun _ => false
  | .iterateType type => .typeWalk type
  | .iterateTypeRouter type advRouter => .typeRouterWalk type advRouter

/-- A database that is used, step by step. -/
def uses : Machine Db Use Empty where
  step s u := ⟨[], step s u.op⟩

/-- An LSA has a header, and is created where nothing is allocated; it is added if it has not been freed, and without a
failing assertion of `ospf6_lsa_is_changed`; it is removed if it is present. -/
def Use.Legal (s : Db) : Use → Prop
  | .create a _ length headeronly => s.live a = false ∧ (headeronly = false → 20 ≤ length)
  | .add a expired => s.live a = true ∧ (lsdbAdd s expired a).isSome
  | .remove a => s.table.info (nodeOf (s.key a)) = some a
  | _ => True

/-- The operation comes to no entry: nothing is found, replaced or removed. -/
def Use.Clear (s : Db) : Use → Prop
  | .add a _ => s.table.info (nodeOf (s.key a)) = none
  | .remove _ => False
  | .lookup k => s.table.info (nodeOf k) = none
  | _ => True

instance Use.decidableLegal (s : Db) : (u : Use) → Decidable (u.Legal s)
  | .create a _ length headeronly =>
    inferInstanceAs (Decidable (s.live a = false ∧ (headeronly = false → 20 ≤ length)))
  | .add a expired => inferInstanceAs (Decidable (s.live a = true ∧ (lsdbAdd s expired a).isSome))
  | .remove a => inferInstanceAs (Decidable (s.table.info (nodeOf (s.key a)) = some a))
  | .lookup _ | .iterate | .iterateType _ | .iterateTypeRouter _ _ => .isTrue trivial

instance Use.decidableClear (s : Db) : (u : Use) → Decidable (u.Clear s)
  | .add a _ => inferInstanceAs (Decidable (s.table.info (nodeOf (s.key a)) = none))
  | .lookup k => inferInstanceAs (Decidable (s.table.info (nodeOf k) = none))
  | .remove _ => .isFalse id
  | .create _ _ _ _ | .iterate | .iterateType _ | .iterateTypeRouter _ _ => .isTrue trivial

section Uses

variable {s : Db} {c : Contents} {l : List Addr}

/-- What an operation does to the locks of the nodes. -/
theorem Tracks.use (h : Tracks s c l) (hrec : Reclaimed s.table) {u : Use} (hlegal : u.Legal s) :
    ∃ s' c' l', LsdbTree.step s u.op = some s' ∧ Tracks s' c' l' ∧ (Reclaimed s'.table ↔ u.Clear s) := by
  have hop : u.op.Legal s c := by
    cases u with
    | remove a =>
        have hmem := (h.rep.info_iff (k := s.key a)).mp hlegal
        exact (h.find (c.key a) a).mpr ⟨hmem.1, rfl⟩
    | create a k length headeronly => exact hlegal
    | add a expired => exact hlegal.1
    | lookup k => trivial
    | iterate => trivial
    | iterateType type => trivial
    | iterateTypeRouter type advRouter => trivial
  have hsafe : u.op.Safe s c := by
    by_contra hnot
    have hnone := h.step_eq_none hop hnot
    cases u with
    | add a expired => exact absurd hlegal.2 (by simp [show lsdbAdd s expired a = none from hnone])
    | _ => exact hnot trivial
  obtain ⟨s', l', hstep, htracks⟩ := h.step hop hsafe
  refine ⟨s', _, l', hstep, htracks, ?_⟩
  -- the loops and the creation of an LSA leave the tree alone
  have hsame : s'.table = s.table → (Reclaimed s'.table ↔ True) := fun ht => by simp [ht, hrec]
  cases u with
  | create a k length headeronly =>
      obtain rfl := Option.some.inj hstep
      exact hsame rfl
  | add a expired =>
      have htable : s'.table = treeAdd s a := h.rep.add_table hlegal.1 hstep
      have hmem : nodeOf (s.key a) ∈ (treeAdd s a).top.nodes := routeNodeGet_mem
      rw [htable]
      constructor
      · intro hreclaimed
        by_contra hk
        have hold := h.rep.kept.mem_of_info hk
        have hpos := h.rep.kept.pos_of_info hk
        refine not_reclaimed hmem (.inl ?_) hreclaimed
        simp only [treeAdd, RouteTable.setInfo, routeNodeGet, routeLockNode, Function.update_self, if_pos hold]
        omega
      · intro hk
        refine hrec.get h.rep.kept_treeAdd hk rfl rfl (by simp [treeAdd, RouteTable.setInfo]) fun b hb => ?_
        simp [h.rep.treeAdd_info, Function.update_of_ne hb]
  | remove a =>
      obtain ⟨hmem, hpos, htable⟩ := h.rep.remove_table hstep
      simp only [Use.Clear, iff_false]
      rw [htable]
      exact not_reclaimed hmem (.inr ⟨hpos, by simp [RouteTable.setInfo]⟩)
  | lookup k =>
      have htable : s'.table = (routeNodeLookup s.table (nodeOf k)).1 := by
        rw [← Option.some.inj hstep, lsdbLookup]
        split <;> simp_all
      rw [htable, h.rep.kept.routeNodeLookup]
      by_cases hk : s.table.info (nodeOf k) = none
      · simp [hk, hrec, Use.Clear]
      · have hpos := h.rep.kept.pos_of_info hk
        simp only [Use.Clear, hk, if_false, iff_false]
        refine not_reclaimed (b := nodeOf k) (h.rep.kept.mem_of_info hk) (.inl ?_)
        simp only [routeLockNode, Function.update_self]
        omega
  | iterate =>
      obtain ⟨x, hx, rfl⟩ := Option.map_eq_some_iff.mp hstep
      obtain ⟨t, ht, -⟩ := h.rep.sweep fun _ => false
      obtain rfl := Option.some.inj (hx.symm.trans ht)
      exact hsame (h.rep.iterate_table ht)
  | iterateType type =>
      obtain ⟨x, hx, rfl⟩ := Option.map_eq_some_iff.mp hstep
      simp only [typeWalk, Option.bind_eq_bind, Option.bind_eq_some_iff, Prod.exists] at hx
      obtain ⟨s₁, a, hhead, hloop⟩ := hx
      refine hsame ((loopFrom_table (fun _ _ _ _ => lsdbRangeNext_table) hloop).trans ?_)
      exact h.rep.rangeHead_table (by simp [typeKey, htons]) hhead
  | iterateTypeRouter type advRouter =>
      obtain ⟨x, hx, rfl⟩ := Option.map_eq_some_iff.mp hstep
      simp only [typeRouterWalk, Option.bind_eq_bind, Option.bind_eq_some_iff, Prod.exists] at hx
      obtain ⟨s₁, a, hhead, hloop⟩ := hx
      refine hsame ((loopFrom_table (fun _ _ _ _ => lsdbRangeNext_table) hloop).trans ?_)
      exact h.rep.rangeHead_table (by simp [typeRouterKey, typeKey, htons, htonl]) hhead

/-- The nodes of a database are reclaimed in every state of a run, if and only if no operation comes to an entry. -/
theorem uses_reclaimed_iff (key : Addr → LsaKey) (us : List Use)
    (hlegal : uses.AllSteps (fun s u => u.Legal s) (empty key) us) :
    uses.Throughout (fun s => Reclaimed s.table) (empty key) us ↔
      uses.AllSteps (fun s u => u.Clear s) (empty key) us := by
  refine uses.throughout_iff_of_legal (J := fun s => (∃ c l, Tracks s c l) ∧ Reclaimed s.table) (fun s h => h.2) ?_ ?_
    ⟨⟨_, _, tracks_empty key⟩, reclaimed_init⟩ hlegal
  · rintro s u s' ⟨⟨c, l, htracks⟩, hrec⟩ hu hclear hstep
    obtain ⟨t, c', l', ht, htracks', hiff⟩ := htracks.use hrec hu
    obtain rfl := Option.some.inj (ht.symm.trans hstep)
    exact ⟨⟨c', l', htracks'⟩, hiff.mpr hclear⟩
  · rintro s u ⟨⟨c, l, htracks⟩, hrec⟩ hu hnot
    obtain ⟨t, c', l', ht, -, hiff⟩ := htracks.use hrec hu
    exact ⟨t, ht, fun h => hnot (hiff.mp h)⟩

end Uses

end Harry.LsdbTree

namespace Harry.Routes

open Harry.Base Harry.Table Harry.Sibling

/-! ### Tables of routes -/

section Frame

variable {s s' : Rtable} {a : Addr}

theorem routeUnlock_table (h : routeUnlock s a = .ok s') : s'.table = s.table := by
  rw [routeUnlock] at h
  split at h
  · rw [← Except.ok.inj h]
    rfl
  · cases h

theorem routeLock?_table {o : Option Addr} (h : routeLock? s o = .ok s') : s'.table = s.table := by
  cases o with
  | none => exact congrArg Rtable.table (Except.ok.inj h).symm
  | some a =>
      rw [routeLock?, routeLock] at h
      split at h
      · rw [← Except.ok.inj h]
        rfl
      · cases h

theorem setNext_table {o v : Option Addr} (h : setNext s o v = .ok s') : s'.table = s.table := by
  rw [setNext] at h
  split at h
  · rw [← Except.ok.inj h]
  · cases h

theorem setPrev_table {o v : Option Addr} (h : setPrev s o v = .ok s') : s'.table = s.table := by
  rw [setPrev] at h
  split at h
  · rw [← Except.ok.inj h]
  · cases h

/-- A call that returns has returned in each of its parts. -/
theorem bind_eq_ok {α β : Type} {x : Except Abort α} {f : α → Except Abort β} {y : β} :
    x >>= f = .ok y ↔ ∃ z, x = .ok z ∧ f z = .ok y := by
  cases x with
  | error e => simp [bind, Except.bind]
  | ok z => simp [bind, Except.bind]

theorem routeNext_table {o : Option Addr} (h : routeNext s a = .ok (s', o)) : s'.table = s.table := by
  simp only [routeNext, bind_eq_ok, pure, Except.pure, Except.ok.injEq, Prod.mk.injEq] at h
  obtain ⟨s₁, hun, s₂, hlock, rfl, -⟩ := h
  rw [routeLock?_table hlock, routeUnlock_table hun]

/-- `ospf6_route_head` gives back the nodes it goes over. -/
theorem routeHead_table (hk : Kept s.table) {o : Option Addr} (h : routeHead s = .ok (s', o)) :
    s'.table = s.table := by
  have hroot : s.table.top.root? = s.table.top.nodes.head? := (Radix.head?_nodes _).symm
  obtain ⟨c, hc, hmem⟩ : ∃ c, skipToInfo (s.table.lockNode? s.table.top.root?) s.table.top.root? =
      some (s.table.lockNode? c, c) ∧ ∀ b ∈ c, b ∈ s.table.top.nodes := by
    cases hn : s.table.top.nodes with
    | nil => exact ⟨none, by simp [hroot, hn, skipToInfo], by simp⟩
    | cons b ys =>
        rw [hroot, hn]
        refine ⟨_, hk.skipToInfo (show s.table.top.nodes = [] ++ b :: ys from hn), fun c hc => ?_⟩
        exact List.mem_of_find?_eq_some hc
  simp only [routeHead, routeTop, hc, need, bind_eq_ok, Except.ok.injEq, exists_eq_left', takeInfo_eq hk hmem] at h
  split at h
  · simp only [bind_eq_ok, pure, Except.pure, Except.ok.injEq, Prod.mk.injEq] at h
    obtain ⟨s₁, hlock, rfl, -⟩ := h
    exact routeLock?_table hlock
  · cases h

theorem linkErrors_table {n m : Nat} {p o : Option Addr} (h : linkErrors n s p o = .ok (s', m)) :
    s'.table = s.table := by
  induction n generalizing s p o m with
  | zero =>
      cases o with
      | none =>
          simp only [linkErrors, Except.ok.injEq, Prod.mk.injEq] at h
          rw [h.1]
      | some r => cases h
  | succ n ih =>
      cases o with
      | none =>
          simp only [linkErrors, Except.ok.injEq, Prod.mk.injEq] at h
          rw [h.1]
      | some r =>
          simp only [linkErrors, bind_eq_ok, pure, Except.pure, Except.ok.injEq, Prod.mk.injEq, Prod.exists] at h
          obtain ⟨s₁, c, hnext, s₂, k, hrest, rfl, -⟩ := h
          rw [ih hrest, routeNext_table hnext]

theorem countRoutes_table {n m : Nat} {o : Option Addr} (h : countRoutes n s o = .ok (s', m)) :
    s'.table = s.table := by
  induction n generalizing s o m with
  | zero =>
      cases o with
      | none =>
          simp only [countRoutes, Except.ok.injEq, Prod.mk.injEq] at h
          rw [h.1]
      | some r => cases h
  | succ n ih =>
      cases o with
      | none =>
          simp only [countRoutes, Except.ok.injEq, Prod.mk.injEq] at h
          rw [h.1]
      | some r =>
          simp only [countRoutes, bind_eq_ok, pure, Except.pure, Except.ok.injEq, Prod.mk.injEq, Prod.exists] at h
          obtain ⟨s₁, c, hnext, s₂, k, hrest, rfl, -⟩ := h
          rw [ih hrest, routeNext_table hnext]

theorem routeTableAssert_table (hk : Kept s.table) (h : routeTableAssert s = .ok s') : s'.table = s.table := by
  simp only [routeTableAssert, bind_eq_ok, Prod.exists] at h
  obtain ⟨s₁, r, hhead, s₂, k, herr, s₃, r', hhead', s₄, m, hcount, h⟩ := h
  have h₁ := routeHead_table hk hhead
  have h₂ : s₂.table = s.table := (linkErrors_table herr).trans h₁
  have h₃ : s₃.table = s.table := (routeHead_table (h₂ ▸ hk) hhead').trans h₂
  split at h
  · rw [← Except.ok.inj h, countRoutes_table hcount, h₃]
  · cases h

/-- A loop that only looks leaves the tree as it was. -/
theorem loopFrom_table {n : Nat} {o : Option Addr} {e e' : Unit}
    (h : loopFrom (fun x _ => .ok x) n (s, e) o = .ok (s', e')) : s'.table = s.table := by
  induction n generalizing s o with
  | zero =>
      cases o with
      | none =>
          simp only [loopFrom, Except.ok.injEq, Prod.mk.injEq] at h
          rw [h.1]
      | some r => cases h
  | succ n ih =>
      cases o with
      | none =>
          simp only [loopFrom, Except.ok.injEq, Prod.mk.injEq] at h
          rw [h.1]
      | some r =>
          simp only [loopFrom, bind_eq_ok, Except.ok.injEq, exists_eq_left', Prod.exists] at h
          obtain ⟨s₁, c, hnext, hrest⟩ := h
          rw [ih hrest, routeNext_table hnext]

end Frame

section Step

variable {s s' : Rtable} {gs : List (List Bool × List Addr)} {a : Addr}

theorem setBestIf_tree (first : Bool) (s : Rtable) (b : List Bool) (a : Addr) :
    (setBestIf first s b a).table.top = s.table.top ∧ (setBestIf first s b a).table.lock = s.table.lock := by
  cases first <;> exact ⟨rfl, rfl⟩

/-- The tree behind `ospf6_route_add`: whatever becomes of the route, the node of its prefix has been locked. -/
theorem Rep.add_tree (h : Rep s none gs) (hf : Fresh s a) {r : Addr} (hadd : routeAdd s a = .ok (s', r)) :
    s'.table.top = (routeNodeGet s.table (s.route a).dest).top ∧
      s'.table.lock = (routeNodeGet s.table (s.route a).dest).lock := by
  have herror := (h.add hf).1
  obtain ⟨xs, ys, A, M, B, hnodes, rfl, hxs, hys, hpw, ⟨rfl, hnone⟩ | ⟨g, rfl, hgne, hinfo⟩⟩ :=
    h.toShape.place (s.route a).dest
  · rw [(h.add_new hf hnodes hxs hys hpw rfl hnone).1] at hadd
    obtain ⟨rfl, -⟩ := Prod.mk.inj (Except.ok.inj hadd)
    exact setBestIf_tree true (linked (withNode s a) _ a _) _ a
  · obtain ⟨hneA, hneB⟩ := ne_of_pairwise hpw
    have hat : groupAt (A ++ ([((s.route a).dest, g)] ++ B)) (s.route a).dest = g := by
      simpa [group, hgne] using groupAt_self (g := g) hneA hneB
    rw [hat] at herror
    cases hs : groupSearch s.route (s.route a) g with
    | error e =>
        rw [herror e hs] at hadd
        cases hadd
    | ok x =>
        obtain ⟨before, old, behind⟩ := x
        cases old with
        | none =>
            rw [(h.add_inserted hf hpw rfl hs).1] at hadd
            obtain ⟨rfl, -⟩ := Prod.mk.inj (Except.ok.inj hadd)
            exact setBestIf_tree before.isEmpty (linked (withNode s a) _ a _) _ a
        | some o =>
            by_cases hid : isIdentical (s.route o) (s.route a) = true
            · rw [(h.add_identical hf hpw rfl hs hid).1] at hadd
              obtain ⟨rfl, -⟩ := Prod.mk.inj (Except.ok.inj hadd)
              exact ⟨rfl, rfl⟩
            · rw [(h.add_replaced hf hpw rfl hs (by simpa using hid)).1] at hadd
              obtain ⟨rfl, -⟩ := Prod.mk.inj (Except.ok.inj hadd)
              exact setBestIf_tree before.isEmpty (withNode s a) _ a

theorem dropFirst_tree {b : List Bool} (hk : Kept s.table) (hmem : b ∈ s.table.top.nodes) (hb : 0 < s.table.lock b) :
    Kept (dropFirst s b a).table ∧ (dropFirst s b a).table.top = s.table.top ∧
      (dropFirst s b a).table.lock = s.table.lock := by
  unfold dropFirst
  split
  · split
    · exact ⟨hk.setInfo hmem hb, rfl, rfl⟩
    · split
      · exact ⟨hk.setInfo hmem hb, rfl, rfl⟩
      · exact ⟨hk.setInfo hmem hb, rfl, rfl⟩
  · exact ⟨hk, rfl, rfl⟩

/-- `ospf6_route_remove` keeps the node it has looked up. -/
theorem remove_tree (hk : Kept s.table) (hrem : routeRemove s a = .ok s') :
    (s.route a).dest ∈ s'.table.top.nodes ∧ 1 < s'.table.lock (s.route a).dest := by
  rw [routeRemove, hk.routeNodeLookup] at hrem
  by_cases hne : s.table.info (s.route a).dest = none
  · simp [hne] at hrem
  · have hmem := hk.mem_of_info hne
    have hpos := hk.pos_of_info hne
    simp only [hne, if_false, bind_eq_ok] at hrem
    obtain ⟨-, -, s₁, hnext, s₂, hprev, s₃, hassert, hun⟩ := hrem
    have htable : s₂.table = routeLockNode s.table (s.route a).dest := by
      rw [setPrev_table hprev, setNext_table hnext]
    have hlock : s₂.table.lock (s.route a).dest = s.table.lock (s.route a).dest + 1 := by
      simp [htable, routeLockNode]
    obtain ⟨hkept, htop, hlocks⟩ := dropFirst_tree (a := a) (b := (s.route a).dest) (htable ▸ hk.lock _)
      (htable ▸ hmem) (by omega)
    have hlast : s₃.table = (dropFirst s₂ (s.route a).dest a).table :=
      routeTableAssert_table (s := { dropFirst s₂ (s.route a).dest a with count :=
        (dropFirst s₂ (s.route a).dest a).count - 1 })
        hkept hassert
    rw [routeUnlock_table hun]
    change _ ∈ s₃.table.top.nodes ∧ 1 < s₃.table.lock _
    rw [hlast, htop, hlocks, hlock, htable]
    exact ⟨hmem, by omega⟩

theorem Rep.iterate_table (h : Rep s none gs) (hsweep : Routes.sweep (fun _ => false) s = .ok s') :
    s'.table = s.table := by
  rw [Routes.sweep, Routes.forEach, h.routeHead.1] at hsweep
  simp only [Bool.false_eq_true, if_false, bind, Except.bind] at hsweep
  cases hloop : loopFrom (fun x _ => .ok x) s.count (s.lock? (chain gs).head?, ()) (chain gs).head? with
  | error e => simp [hloop, Except.map] at hsweep
  | ok x =>
      simp only [hloop, Except.map, Except.ok.injEq] at hsweep
      subst hsweep
      have hlook : x.1.table = (s.lock? (chain gs).head?).table := loopFrom_table (hloop.trans rfl)
      rw [hlook]
      cases (chain gs).head? <;> rfl

end Step

/-- What is done with a table, the loops without a change. -/
inductive Use where
  | add (a : Addr) (r : Route) (f : Flags)
  | remove (a : Addr)
  | lookup (p : List Bool)
  | iterate

def Use.op : Use → Op
  | .add a r f => .add a r f
  | .remove a => .remove a
  | .lookup p => .lookup p
  | .iterate => .sweep fun _ => false

/-- A table that is used, step by step. -/
def uses : Machine Rtable Use Empty where
  step s u := ⟨[], (step s u.op).toOption⟩

/-- A route is created where nothing is allocated, and added without a failing assertion of `ospf6_route_cmp`; it is
removed if it is present. -/
def Use.Legal (s : Rtable) : Use → Prop
  | .add a r f => s.live a = false ∧ (step s (.add a r f)).toOption.isSome
  | .remove a => a ∈ routesOf s (s.route a).dest
  | _ => True

/-- The operation comes to no route: none is found, none with the same prefix is there, none is removed. -/
def Use.Clear (s : Rtable) : Use → Prop
  | .add _ r _ => s.table.info r.dest = none
  | .remove _ => False
  | .lookup p => s.table.info p = none
  | .iterate => True

instance Use.decidableLegal (s : Rtable) : (u : Use) → Decidable (u.Legal s)
  | .add a r f => inferInstanceAs (Decidable (s.live a = false ∧ (step s (.add a r f)).toOption.isSome))
  | .remove a => inferInstanceAs (Decidable (a ∈ routesOf s (s.route a).dest))
  | .lookup _ | .iterate => .isTrue trivial

instance Use.decidableClear (s : Rtable) : (u : Use) → Decidable (u.Clear s)
  | .add _ r _ => inferInstanceAs (Decidable (s.table.info r.dest = none))
  | .remove _ => .isFalse id
  | .lookup p => inferInstanceAs (Decidable (s.table.info p = none))
  | .iterate => .isTrue trivial

section Uses

variable {s : Rtable} {gs : List (List Bool × List Addr)}

theorem groupAt_isSome (h : Rep s none gs) (p : List Bool) : (s.table.info p).isSome ↔ groupAt gs p ≠ [] := by
  rw [h.toShape.info_eq]
  cases groupAt gs p <;> simp

/-- What an operation does to the locks of the nodes. -/
theorem Rep.use (h : Rep s none gs) (hrec : Reclaimed s.table) {u : Use} (hlegal : u.Legal s) :
    ∃ s' gs', (uses.step s u).result = some s' ∧ Rep s' none gs' ∧ (Reclaimed s'.table ↔ u.Clear s) := by
  cases u with
  | add a r f =>
      obtain ⟨hfree, hok⟩ := hlegal
      obtain ⟨hrep, hfresh⟩ := h.create hfree r f
      have hroute : (routeCreate s a r f).route a = r := by simp [routeCreate]
      have hadd := hrep.add hfresh
      rw [hroute] at hadd
      obtain ⟨herror, hgood⟩ := hadd
      cases hs : groupSearch (routeCreate s a r f).route r (groupAt gs r.dest) with
      | error e => simp [step, herror e hs, Except.map, Except.toOption] at hok
      | ok x =>
          obtain ⟨before, old, behind⟩ := x
          obtain ⟨s', c, gs', hadd, hadded⟩ := hgood before old behind hs
          refine ⟨s', gs', by simp [uses, Use.op, step, hadd, Except.map, Except.toOption], hadded.rep, ?_⟩
          obtain ⟨htop, hlock⟩ := hrep.add_tree hfresh hadd
          rw [hroute] at htop hlock
          constructor
          · intro hreclaimed
            by_contra hne
            have hold := h.kept.mem_of_info hne
            have hpos := h.kept.pos_of_info hne
            refine not_reclaimed (b := r.dest) (htop ▸ routeNodeGet_mem) (.inl ?_) hreclaimed
            rw [hlock]
            simp only [routeNodeGet, routeLockNode, Function.update_self]
            have : (routeCreate s a r f).table = s.table := rfl
            rw [this, if_pos hold]
            omega
          · intro hnone
            refine hrec.get hadded.rep.kept hnone htop hlock ?_ fun p hp => ?_
            · have hempty : groupAt gs r.dest = [] := by
                have hgroup := h.toShape.info_eq r.dest
                rw [hnone] at hgroup
                exact List.head?_eq_none_iff.mp hgroup.symm
              rw [hempty, groupSearch, Except.ok.injEq] at hs
              obtain ⟨rfl, rfl, rfl⟩ : [] = before ∧ none = old ∧ [] = behind := by simpa using hs
              have hgroup := (hadded.new rfl).2.1
              rw [hroute] at hgroup
              rw [groupAt_isSome hadded.rep, hgroup]
              simp
            · rw [Bool.eq_iff_iff, groupAt_isSome hadded.rep, groupAt_isSome h]
              have hother := hadded.others p (by rw [hroute]; exact hp)
              rw [hother]
  | remove a =>
      rw [Use.Legal, h.toShape.routesOf, h.toShape.groupAt_eq] at hlegal
      obtain ⟨as, bs, hgs⟩ := List.append_of_mem (List.mem_of_mem_filter hlegal)
      obtain ⟨s', gs', hrem, hrep, -⟩ := h.remove hgs
      obtain ⟨hmem, hlock⟩ := remove_tree h.kept hrem
      refine ⟨s', gs', by simp [uses, Use.op, step, hrem, Except.toOption], hrep, ?_⟩
      simp only [Use.Clear, iff_false]
      exact not_reclaimed hmem (.inl hlock)
  | lookup p =>
      have htable : (routeLookup s p).1.table = (routeNodeLookup s.table p).1 := by
        rw [routeLookup]
        split <;> simp_all
      refine ⟨_, gs, rfl, (h.lookup p).1, ?_⟩
      rw [htable, h.kept.routeNodeLookup]
      by_cases hp : s.table.info p = none
      · simp [hp, hrec, Use.Clear]
      · have hpos := h.kept.pos_of_info hp
        simp only [Use.Clear, hp, if_false, iff_false]
        refine not_reclaimed (b := p) (h.kept.mem_of_info hp) (.inl ?_)
        simp only [routeLockNode, Function.update_self]
        omega
  | iterate =>
      obtain ⟨s', gs', hsweep, hrep, -⟩ := h.sweep fun _ => false
      refine ⟨s', gs', by simp [uses, Use.op, step, hsweep, Except.toOption], hrep, ?_⟩
      rw [h.iterate_table hsweep]
      simp [hrec, Use.Clear]

/-- The nodes of a table are reclaimed in every state of a run, if and only if no operation comes to a route. -/
theorem uses_reclaimed_iff (us : List Use) (hlegal : uses.AllSteps (fun s u => u.Legal s) empty us) :
    uses.Throughout (fun s => Reclaimed s.table) empty us ↔ uses.AllSteps (fun s u => u.Clear s) empty us := by
  refine uses.throughout_iff_of_legal (J := fun s => (∃ gs, Rep s none gs) ∧ Reclaimed s.table) (fun s h => h.2) ?_ ?_
    ⟨⟨_, empty_rep⟩, reclaimed_init⟩ hlegal
  · rintro s u s' ⟨⟨gs, hrep⟩, hrec⟩ hu hclear hstep
    obtain ⟨t, gs', ht, hrep', hiff⟩ := hrep.use hrec hu
    obtain rfl := Option.some.inj (ht.symm.trans hstep)
    exact ⟨⟨gs', hrep'⟩, hiff.mpr hclear⟩
  · rintro s u ⟨⟨gs, hrep⟩, hrec⟩ hu hnot
    obtain ⟨t, gs', ht, -, hiff⟩ := hrep.use hrec hu
    exact ⟨t, ht, fun h => hnot (hiff.mp h)⟩

end Uses

end Harry.Routes

namespace Harry.Table

open Harry.Base Harry.Sibling

/-- In every state of a run of a database, and of a table of routes, the nodes of the tree are reclaimed, if and only if
no operation comes to an entry: none is looked up that is there, none is added where one is, none is removed. -/
theorem reclaimed_iff_clear (key : Addr → LsaKey) (us : List LsdbTree.Use) (rs : List Routes.Use)
    (hus : LsdbTree.uses.AllSteps (fun s u => u.Legal s) (LsdbTree.empty key) us)
    (hrs : Routes.uses.AllSteps (fun s u => u.Legal s) Routes.empty rs) :
    (LsdbTree.uses.Throughout (fun s => Reclaimed s.table) (LsdbTree.empty key) us ↔
      LsdbTree.uses.AllSteps (fun s u => u.Clear s) (LsdbTree.empty key) us) ∧
    (Routes.uses.Throughout (fun s => Reclaimed s.table) Routes.empty rs ↔
      Routes.uses.AllSteps (fun s u => u.Clear s) Routes.empty rs) :=
  ⟨LsdbTree.uses_reclaimed_iff key us hus, Routes.uses_reclaimed_iff rs hrs⟩

/-- LSAs and routes that are added with keys of their own, looked up under others and gone through. -/
def clearUses : List LsdbTree.Use × List Routes.Use :=
  ([.create 0 ⟨0x2001, 0, 1⟩ 24 false, .create 1 ⟨0x2002, 7, 1⟩ 20 true, .add 0 fun _ => false,
      .lookup ⟨0x2002, 7, 1⟩, .add 1 fun _ => false, .iterate, .iterateType 0x2001],
    [.add 0 (Routes.sampleRoute [true, false] 1 10) default, .lookup [true],
      .add 1 (Routes.sampleRoute [true, true] 1 10) default, .iterate])

theorem reclaimed_iff_clear_sample :
    LsdbTree.uses.Throughout (fun s => Reclaimed s.table) (LsdbTree.empty fun _ => ⟨0, 0, 0⟩) clearUses.1 ∧
      Routes.uses.Throughout (fun s => Reclaimed s.table) Routes.empty clearUses.2 := by
  obtain ⟨hdb, hroutes⟩ := reclaimed_iff_clear (fun _ => ⟨0, 0, 0⟩) clearUses.1 clearUses.2 (by decide)
    (by decide)
  exact ⟨hdb.mpr (by decide), hroutes.mpr (by decide)⟩

/-- An LSA, and a route, that is added and removed. -/
def removingUses : List LsdbTree.Use × List Routes.Use :=
  ([.create 0 ⟨0x2001, 0, 1⟩ 24 false, .add 0 fun _ => false, .remove 0],
    [.add 0 (Routes.sampleRoute [true, false] 1 10) default, .remove 0])

/-- The database and the table are empty then, and the tree of neither is. -/
theorem removed_not_reclaimed :
    LsdbTree.uses.AllSteps (fun s u => u.Legal s) (LsdbTree.empty fun _ => ⟨0, 0, 0⟩) removingUses.1 ∧
      Routes.uses.AllSteps (fun s u => u.Legal s) Routes.empty removingUses.2 ∧
      (∃ s, (LsdbTree.uses.run (LsdbTree.empty fun _ => ⟨0, 0, 0⟩) removingUses.1).result = some s ∧ s.count = 0 ∧
        ¬ s.table.top.nodes = []) ∧
      (∃ s, (Routes.uses.run Routes.empty removingUses.2).result = some s ∧ s.count = 0 ∧
        ¬ s.table.top.nodes = []) ∧
      ¬ LsdbTree.uses.Throughout (fun s => Reclaimed s.table) (LsdbTree.empty fun _ => ⟨0, 0, 0⟩) removingUses.1 ∧
      ¬ Routes.uses.Throughout (fun s => Reclaimed s.table) Routes.empty removingUses.2 := by
  refine ⟨by decide, by decide, exists_of_any (by decide), exists_of_any (by decide),
    fun h => ?_, fun h => ?_⟩
  · obtain ⟨s, hs, b, hb, hlock, hinfo⟩ : ∃ s,
        (LsdbTree.uses.run (LsdbTree.empty fun _ => ⟨0, 0, 0⟩) removingUses.1).result = some s ∧
          ∃ b ∈ s.table.top.nodes, 0 < s.table.lock b ∧ s.table.info b = none := exists_of_any (by decide)
    exact not_reclaimed hb (.inr ⟨hlock, hinfo⟩) (Machine.Throughout.of_run LsdbTree.uses h hs)
  · obtain ⟨s, hs, b, hb, hlock, hinfo⟩ : ∃ s, (Routes.uses.run Routes.empty removingUses.2).result = some s ∧
          ∃ b ∈ s.table.top.nodes, 0 < s.table.lock b ∧ s.table.info b = none := exists_of_any (by decide)
    exact not_reclaimed hb (.inr ⟨hlock, hinfo⟩) (Machine.Throughout.of_run Routes.uses h hs)

end Harry.Table
