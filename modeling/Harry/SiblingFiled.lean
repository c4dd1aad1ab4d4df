import Harry.SiblingConverge

/-! What is on the lists of a sibling is on its heap, each list is in the order of the keys, and each database holds LSAs
of its own scope. All this is kept by every step of every handler, and so holds in every state that a run from the start
gets to. -/

namespace Harry.Sibling

open Harry.Base Harry.Rfp Prog

variable {ρ : Type}

/-- The lists of a neighbor, of an interface, of an area and of a sibling. -/
def Neighbor.Row (n : Neighbor) (as : List Addr) : Prop := ∃ list, as = n.list list

def Interface.Row (i : Interface) (as : List Addr) : Prop :=
  as = i.lsdb ∨ as = i.lsdbSelf ∨ as = i.lsupdateList ∨ as = i.lsackList ∨ ∃ n ∈ i.neighborList, n.Row as

def Area.Row (o : Area) (as : List Addr) : Prop := as = o.lsdb ∨ as = o.lsdbSelf

def State.Row (s : State ρ) (as : List Addr) : Prop :=
  as = s.lsdb ∨ (∃ o ∈ s.areaList, o.Row as) ∨ ∃ i ∈ s.interfaces, i.Row as

/-- The LSAs on the lists. -/
def State.Lists (s : State ρ) (a : Addr) : Prop := ∃ as, s.Row as ∧ a ∈ as

section Lists

variable {s : State ρ} {m : Mem} {a : Addr} {as bs : List Addr}

theorem row_interface (oi : Nat) (h : (s.interfaces.getD oi default).Row as) : as = [] ∨ s.Row as := by
  rw [List.getD_eq_getElem?_getD] at h
  cases hoi : s.interfaces[oi]? with
  | none =>
      rw [hoi] at h
      obtain h | h | h | h | ⟨n, hn, -⟩ := h
      · exact .inl h
      · exact .inl h
      · exact .inl h
      · exact .inl h
      · exact absurd hn List.not_mem_nil
  | some i =>
      rw [hoi] at h
      exact .inr (.inr (.inr ⟨i, List.mem_of_getElem? hoi, h⟩))

theorem row_area (oa : Nat) (h : (s.areaList.getD oa default).Row as) : as = [] ∨ s.Row as := by
  rw [List.getD_eq_getElem?_getD] at h
  cases hoa : s.areaList[oa]? with
  | none =>
      rw [hoa] at h
      exact .inl (h.elim id id)
  | some o =>
      rw [hoa] at h
      exact .inr (.inr (.inl ⟨o, List.mem_of_getElem? hoa, h⟩))

/-- What a database stands for is a list, or there is none. -/
theorem row_of_get (db : Lsdb) : db.get s = [] ∨ s.Row (db.get s) := by
  cases db with
  | interface oi => exact row_interface oi (.inl rfl)
  | interfaceSelf oi => exact row_interface oi (.inr (.inl rfl))
  | interfaceLsupdate oi => exact row_interface oi (.inr (.inr (.inl rfl)))
  | interfaceLsack oi => exact row_interface oi (.inr (.inr (.inr (.inl rfl))))
  | area oa => exact row_area oa (.inl rfl)
  | areaSelf oa => exact row_area oa (.inr rfl)
  | as => exact .inr (.inl rfl)
  | neighbor on list =>
      change (((s.interfaces.getD on.oi default).neighborLookup on.routerId).getD default).list list = [] ∨
        s.Row ((((s.interfaces.getD on.oi default).neighborLookup on.routerId).getD default).list list)
      cases hfound : (s.interfaces.getD on.oi default).neighborLookup on.routerId with
      | none =>
          refine .inl ?_
          cases list <;> rfl
      | some n =>
          exact row_interface on.oi (.inr (.inr (.inr (.inr ⟨n, List.mem_of_find?_eq_some hfound, list, rfl⟩))))

theorem lists_of_get {db : Lsdb} (h : a ∈ db.get s) : s.Lists a := by
  obtain hnil | hrow := row_of_get (s := s) db
  · rw [hnil] at h
    exact absurd h List.not_mem_nil
  · exact ⟨_, hrow, h⟩

theorem mem_modify {α : Type} {f : α → α} {l : List α} {i : Nat} {b : α} (h : b ∈ l.modify i f) :
    b ∈ l ∨ ∃ c ∈ l, b = f c := by
  obtain ⟨j, hj, hb⟩ := List.mem_iff_getElem.mp h
  rw [List.getElem_modify] at hb
  have hlt : j < l.length := by simpa using hj
  split at hb
  · exact .inr ⟨l[j], List.getElem_mem hlt, hb.symm⟩
  · exact .inl (hb ▸ List.getElem_mem hlt)

/-- An interface that is changed has the lists that it had, and those that come new. -/
theorem row_modifyInterface {oi : Nat} {f : Interface → Interface} {P : Prop} (hf : ∀ i, (f i).Row as → i.Row as ∨ P)
    (h : ((modifyInterface oi f : M ρ Unit) s m).2.1.Row as) : s.Row as ∨ P := by
  obtain h | h | ⟨i, hi, h⟩ := h
  · exact .inl (.inl h)
  · exact .inl (.inr (.inl h))
  · obtain hi | ⟨j, hj, rfl⟩ := mem_modify hi
    · exact .inl (.inr (.inr ⟨i, hi, h⟩))
    · exact (hf j h).imp_left fun h => .inr (.inr ⟨j, hj, h⟩)

theorem row_modifyArea {oa : Nat} {f : Area → Area} {P : Prop} (hf : ∀ o, (f o).Row as → o.Row as ∨ P)
    (h : ((modifyArea oa f : M ρ Unit) s m).2.1.Row as) : s.Row as ∨ P := by
  obtain h | ⟨o, ho, h⟩ | h := h
  · exact .inl (.inl h)
  · obtain ho | ⟨p, hp, rfl⟩ := mem_modify ho
    · exact .inl (.inr (.inl ⟨o, ho, h⟩))
    · exact (hf p h).imp_left fun h => .inr (.inl ⟨p, hp, h⟩)
  · exact .inl (.inr (.inr h))

theorem row_modifyNeighbor {on : NbrRef} {f : Neighbor → Neighbor} {P : Prop} (hf : ∀ n, (f n).Row as → n.Row as ∨ P)
    (h : ((modifyNeighbor on f : M ρ Unit) s m).2.1.Row as) : s.Row as ∨ P := by
  refine row_modifyInterface (fun i hi => ?_) h
  obtain hi | hi | hi | hi | ⟨n, hn, hi⟩ := hi
  · exact .inl (.inl hi)
  · exact .inl (.inr (.inl hi))
  · exact .inl (.inr (.inr (.inl hi)))
  · exact .inl (.inr (.inr (.inr (.inl hi))))
  · obtain ⟨n', hn', rfl⟩ := List.mem_map.mp hn
    have hn'' : n'.Row as ∨ P := by
      split at hi
      · exact hf n' hi
      · exact .inl hi
    exact hn''.imp_left fun hi => .inr (.inr (.inr (.inr ⟨n', hn', hi⟩)))

theorem row_setList {n : Neighbor} {list : NbrList} (h : (n.setList as list).Row bs) : n.Row bs ∨ bs = as := by
  obtain ⟨list', h⟩ := h
  by_cases heq : list' = list
  · subst heq
    rw [show (n.setList as list').list list' = as by cases list' <;> rfl] at h
    exact .inr h
  · refine .inl ⟨list', ?_⟩
    rwa [show (n.setList as list).list list' = n.list list' by
      cases list <;> cases list' <;> first | rfl | exact absurd rfl heq] at h

/-- A list that is put. -/
theorem row_put {db : Lsdb} (h : (((db.put as : M ρ Unit) s m).2.1).Row bs) : s.Row bs ∨ bs = as := by
  cases db with
  | interface oi =>
      refine row_modifyInterface (fun i hi => ?_) h
      obtain hi | hi := hi
      · exact .inr hi
      · exact .inl (.inr hi)
  | interfaceSelf oi =>
      refine row_modifyInterface (fun i hi => ?_) h
      obtain hi | hi | hi := hi
      · exact .inl (.inl hi)
      · exact .inr hi
      · exact .inl (.inr (.inr hi))
  | interfaceLsupdate oi =>
      refine row_modifyInterface (fun i hi => ?_) h
      obtain hi | hi | hi | hi := hi
      · exact .inl (.inl hi)
      · exact .inl (.inr (.inl hi))
      · exact .inr hi
      · exact .inl (.inr (.inr (.inr hi)))
  | interfaceLsack oi =>
      refine row_modifyInterface (fun i hi => ?_) h
      obtain hi | hi | hi | hi | hi := hi
      · exact .inl (.inl hi)
      · exact .inl (.inr (.inl hi))
      · exact .inl (.inr (.inr (.inl hi)))
      · exact .inr hi
      · exact .inl (.inr (.inr (.inr (.inr hi))))
  | area oa =>
      refine row_modifyArea (fun o ho => ?_) h
      obtain ho | ho := ho
      · exact .inr ho
      · exact .inl (.inr ho)
  | areaSelf oa =>
      refine row_modifyArea (fun o ho => ?_) h
      obtain ho | ho := ho
      · exact .inl (.inl ho)
      · exact .inr ho
  | as => exact h.elim .inr fun h => .inl (.inr h)
  | neighbor on list => exact row_modifyNeighbor (fun n hn => row_setList hn) h

theorem mem_getD_modify {α : Type} [Inhabited α] {g : α → List Addr} {f : α → α} {l : List α} {i j : Nat}
    (h : a ∈ g ((l.modify i f).getD j default)) : a ∈ g (l.getD j default) ∨ j = i ∧ ∃ c, a ∈ g (f c) := by
  rw [List.getD_eq_getElem?_getD, List.getElem?_modify] at h
  rw [List.getD_eq_getElem?_getD]
  cases hj : l[j]? with
  | none =>
      rw [hj] at h
      exact .inl h
  | some c =>
      rw [hj] at h
      by_cases heq : i = j
      · rw [heq] at h
        exact .inr ⟨heq.symm, c, by simpa using h⟩
      · exact .inl (by simpa [heq] using h)

/-- A scoped database after some list has been put: that list, or what it was. -/
theorem get_put {db d : Lsdb} (hd : d.Scoped) (h : a ∈ d.get ((db.put as : M ρ Unit) s m).2.1) :
    a ∈ d.get s ∨ d = db ∧ a ∈ as := by
  by_cases hdb : db.Scoped
  swap
  · have hquiet := (quiet_put as hdb : Within Quiet (db.put as : M ρ Unit)) s m
    rw [hquiet.get hd] at h
    exact .inl h
  cases db with
  | interface oi =>
      cases d with
      | interface oi' =>
          obtain hmem | ⟨rfl, _, hmem⟩ := mem_getD_modify (g := Interface.lsdb) (f := fun i => { i with lsdb := as }) h
          · exact .inl hmem
          · exact .inr ⟨rfl, hmem⟩
      | area oa => exact .inl h
      | as => exact .inl h
      | _ => exact hd.elim
  | area oa =>
      cases d with
      | interface oi => exact .inl h
      | area oa' =>
          obtain hmem | ⟨rfl, _, hmem⟩ := mem_getD_modify (g := Area.lsdb) (f := fun o => { o with lsdb := as }) h
          · exact .inl hmem
          · exact .inr ⟨rfl, hmem⟩
      | as => exact .inl h
      | _ => exact hd.elim
  | as =>
      cases d with
      | as => exact .inr ⟨rfl, h⟩
      | interface oi => exact .inl h
      | area oa => exact .inl h
      | _ => exact hd.elim
  | _ => exact hdb.elim

end Lists

section Order

variable {j k l : LsaKey} {m : Mem} {a : Addr} {as : List Addr}

theorem before_iff : j.before k = true ↔ j.type.toNat < k.type.toNat ∨ j.type.toNat = k.type.toNat ∧
    (j.advRouter.toNat < k.advRouter.toNat ∨ j.advRouter.toNat = k.advRouter.toNat ∧ j.id.toNat < k.id.toNat) := by
  simp only [LsaKey.before, Bool.or_eq_true, Bool.and_eq_true, decide_eq_true_eq, beq_iff_eq, UInt16.lt_iff_toNat_lt,
    UInt32.lt_iff_toNat_lt, ← UInt16.toNat_inj, ← UInt32.toNat_inj]

theorem before_trans (h : j.before k = true) (h' : k.before l = true) : j.before l = true := by
  rw [before_iff] at *
  omega

theorem before_irrefl : j.before j = false := by
  rw [Bool.eq_false_iff, ne_eq, before_iff]
  omega

theorem before_of_not (hne : j ≠ k) (h : ¬ j.before k = true) : k.before j = true := by
  obtain ⟨type, id, adv⟩ := j
  obtain ⟨type', id', adv'⟩ := k
  simp only [ne_eq, LsaKey.mk.injEq, ← UInt16.toNat_inj, ← UInt32.toNat_inj] at hne
  rw [before_iff] at *
  dsimp only at *
  omega

/-- The LSAs come in the order of their keys, each key once. -/
def Ordered (m : Mem) (as : List Addr) : Prop :=
  as.Pairwise fun a b => (m.lsa a).header.key.before (m.lsa b).header.key = true

theorem key_of_lt (h : a < m.heap.length) : m.key a = some (m.lsa a).header.key := if_pos h

theorem Ordered.insertLsa (ha : a < m.heap.length) (has : ∀ b ∈ as, b < m.heap.length) (h : Ordered m as) :
    Ordered m (insertLsa m.key a as).1 := by
  induction as with
  | nil => exact List.pairwise_singleton _ _
  | cons b bs ih =>
      obtain ⟨hb, hbs⟩ := List.pairwise_cons.mp h
      have hlt : b < m.heap.length := has b List.mem_cons_self
      have hrest : ∀ c ∈ bs, c < m.heap.length := fun c hc => has c (List.mem_cons_of_mem b hc)
      rw [Sibling.insertLsa, key_of_lt ha, key_of_lt hlt]
      simp only [Option.any_some, Option.some.injEq]
      split_ifs with hkey hbefore
      · exact List.pairwise_cons.mpr ⟨fun c hc => hkey ▸ hb c hc, hbs⟩
      · refine List.pairwise_cons.mpr ⟨fun c hc => ?_, h⟩
        obtain rfl | hc := List.mem_cons.mp hc
        · exact hbefore
        · exact before_trans hbefore (hb c hc)
      · refine List.pairwise_cons.mpr ⟨fun c hc => ?_, ih hrest hbs⟩
        obtain rfl | hc := mem_insertLsa hc
        · exact before_of_not (fun heq => hkey heq.symm) hbefore
        · exact hb c hc

/-- What an LSA takes the place of in a list. -/
theorem Ordered.replaced (ha : a < m.heap.length) (has : ∀ b ∈ as, b < m.heap.length) (h : Ordered m as) :
    (Sibling.insertLsa m.key a as).2 = as.find? fun b => m.key b == some (m.lsa a).header.key := by
  induction as with
  | nil => rfl
  | cons b bs ih =>
      obtain ⟨hb, hbs⟩ := List.pairwise_cons.mp h
      have hlt : b < m.heap.length := has b List.mem_cons_self
      have hrest : ∀ c ∈ bs, c < m.heap.length := fun c hc => has c (List.mem_cons_of_mem b hc)
      rw [Sibling.insertLsa, key_of_lt ha, key_of_lt hlt, List.find?_cons, key_of_lt hlt]
      simp only [Option.any_some, Option.some.injEq, Option.some_beq_some]
      split_ifs with hkey hbefore
      · simp [hkey]
      · -- all that follow are behind it
        rw [beq_eq_false_iff_ne.mpr hkey]
        refine (List.find?_eq_none.mpr fun c hc hc' => ?_).symm
        rw [key_of_lt (hrest c hc)] at hc'
        have hlater := before_trans hbefore (hb c hc)
        rw [show (m.lsa c).header.key = (m.lsa a).header.key by simpa using hc', before_irrefl] at hlater
        cases hlater
      · rw [beq_eq_false_iff_ne.mpr hkey]
        exact ih hrest hbs

theorem Ordered.sublist {bs : List Addr} (h : Ordered m as) (hbs : bs.Sublist as) : Ordered m bs :=
  List.Pairwise.sublist hbs h

end Order

/-! ### What is filed where -/

/-- What is on a list is on the heap, and in order; an LSA that has a database is of the scope of it, and so is what is in
it. -/
structure Filed (x : State ρ × Mem) : Prop where
  listed : ∀ a, x.1.Lists a → a < x.2.heap.length
  ordered : ∀ as, x.1.Row as → Ordered x.2 as
  tagged : ∀ a d, (x.2.lsa a).lsdb = some d → d.Fits (x.2.lsa a).header.type
  stored : ∀ d : Lsdb, d.Scoped → ∀ a ∈ d.get x.1, d.Fits (x.2.lsa a).header.type

section Filed

variable {s s' : State ρ} {m m' : Mem} {a : Addr} {d : Lsdb}

theorem Filed.lt_of_get (h : Filed (s, m)) {db : Lsdb} (ha : a ∈ db.get s) : a < m.heap.length :=
  h.listed a (lists_of_get ha)

theorem Filed.lt_of_copyOf {x : State ρ × Mem} (h : Filed x) {db : Lsdb} {k : LsaKey} (ha : copyOf x db k = some a) :
    a < x.2.heap.length := h.lt_of_get (List.mem_of_find?_eq_some ha)

theorem Filed.ordered_get (h : Filed (s, m)) (db : Lsdb) : Ordered m (db.get s) := by
  obtain hnil | hrow := row_of_get (s := s) db
  · rw [hnil]
    exact List.Pairwise.nil
  · exact h.ordered _ hrow

theorem Lsdb.Fits.scoped {type : UInt16} (h : d.Fits type) : d.Scoped := by
  cases d with
  | interface oi => trivial
  | area oa => trivial
  | as => trivial
  | _ => exact h.elim

theorem lsa_of_le (h : m.heap.length ≤ a) : m.lsa a = default := by
  rw [Mem.lsa, List.getD_eq_getElem?_getD, List.getElem?_eq_none h]
  rfl

theorem Filed.lt_of_tagged (h : (m.lsa a).lsdb = some d) : a < m.heap.length := by
  by_contra hle
  rw [lsa_of_le (not_lt.mp hle)] at h
  cases h

theorem Filed.of_state (h : Filed (s, m)) (hrows : ∀ as, s'.Row as → as = [] ∨ s.Row as)
    (hdbs : s'.databases = s.databases) : Filed (s', m) where
  listed a ha := by
    obtain ⟨as, hrow, ha⟩ := ha
    obtain rfl | hrow := hrows as hrow
    · exact absurd ha List.not_mem_nil
    · exact h.listed a ⟨as, hrow, ha⟩
  ordered as hrow := by
    obtain rfl | hrow := hrows as hrow
    · exact List.Pairwise.nil
    · exact h.ordered as hrow
  tagged := h.tagged
  stored d hd a ha := h.stored d hd a (by rwa [get_scoped hd, ← hdbs, ← get_scoped hd])

/-- The LSAs that there were keep their headers; those that come are tagged as they should be. -/
theorem Filed.of_heap (h : Filed (s, m)) (hlength : m.heap.length ≤ m'.heap.length)
    (hheader : ∀ a < m.heap.length, (m'.lsa a).header = (m.lsa a).header)
    (htagged : ∀ a d, (m'.lsa a).lsdb = some d → d.Fits (m'.lsa a).header.type) : Filed (s, m') where
  listed a ha := (h.listed a ha).trans_le hlength
  ordered as hrow := by
    refine List.Pairwise.imp_of_mem (fun {b c} hb hc hlt => ?_) (h.ordered as hrow)
    rwa [hheader b (h.listed b ⟨as, hrow, hb⟩), hheader c (h.listed c ⟨as, hrow, hc⟩)]
  tagged := htagged
  stored d hd a ha := by
    show d.Fits (m'.lsa a).header.type
    rw [hheader a (h.lt_of_get ha)]
    exact h.stored d hd a ha

theorem kept_update {f : Lsa → Lsa} (hf : ∀ l, ((f l).header, (f l).lsdb) = (l.header, l.lsdb)) (b : Addr) :
    ((m.update a f).lsa b).header = (m.lsa b).header ∧ ((m.update a f).lsa b).lsdb = (m.lsa b).lsdb := by
  rw [lsa_update]
  split
  · exact Prod.mk.inj (hf _)
  · exact ⟨rfl, rfl⟩

theorem Filed.of_update (h : Filed (s, m)) {f : Lsa → Lsa}
    (hf : ∀ l, ((f l).header, (f l).lsdb) = (l.header, l.lsdb)) : Filed (s, m.update a f) := by
  refine h.of_heap (List.length_modify _ _ _).ge (fun b _ => (kept_update hf b).1) fun b d hb => ?_
  rw [(kept_update hf b).1]
  exact h.tagged b d ((kept_update hf b).2.symm.trans hb)

theorem Filed.of_push (h : Filed (s, m)) {l : Lsa} (hl : ∀ d, l.lsdb = some d → d.Fits l.header.type) :
    Filed (s, m.push l) := by
  refine h.of_heap (by simp [Mem.push]) (fun b hb => by rw [lsa_push, if_neg hb.ne]) fun b d hb => ?_
  rw [lsa_push] at hb ⊢
  split at hb
  · next heq =>
      rw [if_pos heq]
      exact hl d hb
  · next hne =>
      rw [if_neg hne]
      exact h.tagged b d hb

theorem Filed.tick (h : Filed (s, m)) : Filed (s, m.tick) := ⟨h.listed, h.ordered, h.tagged, h.stored⟩

theorem Filed.refresh (h : Filed (s, m)) (a : Addr) : Filed (s, m.refresh a) := h.tick.of_update fun _ => rfl

/-- What is put in a list is on the heap, in order and, where it is a database, of its scope. -/
theorem Filed.put (h : Filed (s, m)) {db : Lsdb} {as : List Addr} (hordered : Ordered m as)
    (has : ∀ a ∈ as, a ∈ db.get s ∨ a < m.heap.length ∧ (db.Scoped → db.Fits (m.lsa a).header.type)) :
    Filed ((db.put as : M ρ Unit) s m).2 := by
  have hmem : ((db.put as : M ρ Unit) s m).2.2 = m := by cases db <;> rfl
  refine ⟨fun a ha => ?_, fun bs hrow => ?_, fun a d ha => ?_, fun d hd a ha => ?_⟩
  · rw [hmem]
    obtain ⟨bs, hrow, ha⟩ := ha
    obtain hrow | rfl := row_put hrow
    · exact h.listed a ⟨bs, hrow, ha⟩
    · exact (has a ha).elim h.lt_of_get And.left
  · rw [hmem]
    obtain hrow | rfl := row_put hrow
    · exact h.ordered bs hrow
    · exact hordered
  · rw [hmem] at ha ⊢
    exact h.tagged a d ha
  · rw [hmem]
    obtain hget | ⟨rfl, hput⟩ := get_put hd ha
    · exact h.stored d hd a hget
    · exact (has a hput).elim (fun hget => h.stored d hd a hget) fun hnew => hnew.2 hd

/-- From a state with a property to one with it. -/
def Keeping (I : State ρ × Mem → Prop) (x y : State ρ × Mem) : Prop := I x → I y

instance (I : State ρ × Mem → Prop) : Frame (Keeping I) where
  refl _ h := h
  trans h h' hx := h' (h hx)

theorem State.Row.of_kernel {as : List Addr} (h : s'.kernel = s.kernel) (hrow : s'.Row as) : s.Row as := by
  simp only [State.kernel, Prod.mk.injEq] at h
  obtain ⟨-, hareas, hinterfaces, hlsdb, -⟩ := h
  rw [State.Row, hareas, hinterfaces, hlsdb] at hrow
  exact hrow

theorem databases_of_kernel (h : s'.kernel = s.kernel) : s'.databases = s.databases := by
  simp only [State.kernel, Prod.mk.injEq] at h
  obtain ⟨-, hareas, hinterfaces, hlsdb, -⟩ := h
  rw [State.databases, State.databases, hareas, hinterfaces, hlsdb]

theorem Interface.Row.of_kernel {as : List Addr} {i j : Interface} (h : j.kernel = i.kernel) (hrow : j.Row as) :
    i.Row as := by
  simp only [Interface.kernel, Prod.mk.injEq] at h
  obtain ⟨-, hneighbors, hlsdb, hself, hlsupdate, hlsack⟩ := h
  rw [Interface.Row, hneighbors, hlsdb, hself, hlsupdate, hlsack] at hrow
  exact hrow

theorem Area.Row.of_kernel {as : List Addr} {o p : Area} (h : p.kernel = o.kernel) (hrow : p.Row as) : o.Row as := by
  simp only [Area.kernel, Prod.mk.injEq] at h
  obtain ⟨-, -, hlsdb, hself⟩ := h
  rw [Area.Row, hlsdb, hself] at hrow
  exact hrow

theorem list_exchange {n n' : Neighbor} (h : n'.exchange = n.exchange) (list : NbrList) : n'.list list = n.list list := by
  simp only [Neighbor.exchange, Exchange.mk.injEq] at h
  cases list <;> simp [Neighbor.list, h]

theorem filed_of_state {f : State ρ → State ρ} (hrows : ∀ s as, (f s).Row as → s.Row as)
    (hdbs : ∀ s, (f s).databases = s.databases) : Within (Keeping Filed) (modify f : M ρ Unit) :=
  fun s _ h => Filed.of_state h (fun as hrow => .inr (hrows s as hrow)) (hdbs s)

theorem filed_modifyInterface (oi : Nat) {f : Interface → Interface} (hf : ∀ i as, (f i).Row as → i.Row as ∨ as = [])
    (hdb : ∀ i, ((f i).area, (f i).lsdb) = (i.area, i.lsdb)) :
    Within (Keeping Filed) (modifyInterface oi f : M ρ Unit) :=
  fun s m h => Filed.of_state h (fun as hrow => (row_modifyInterface (m := m) (fun i hi => hf i as hi) hrow).symm)
    ((quiet_modifyInterface oi hdb) s m).databases

theorem filed_modifyArea (oa : Nat) {f : Area → Area} (hf : ∀ o as, (f o).Row as → o.Row as)
    (hdb : ∀ o, (f o).lsdb = o.lsdb) : Within (Keeping Filed) (modifyArea oa f : M ρ Unit) :=
  fun s m h => Filed.of_state h (fun as hrow => (row_modifyArea (m := m) (fun o ho => .inl (hf o as ho)) hrow).symm)
    ((quiet_modifyArea oa hdb) s m).databases

theorem filed_modifyNeighbor (on : NbrRef) {f : Neighbor → Neighbor} (hf : ∀ n list, (f n).list list = n.list list) :
    Within (Keeping Filed) (modifyNeighbor on f : M ρ Unit) := by
  have hkept : ∀ n as, (f n).Row as → n.Row as := fun n as ⟨list, hn⟩ => ⟨list, hn.trans (hf n list)⟩
  exact fun s m h => Filed.of_state h
    (fun as hrow => (row_modifyNeighbor (m := m) (fun n hn => .inl (hkept n as hn)) hrow).symm)
    ((quiet_modifyNeighbor on f) s m).databases

theorem filed_modifyInfo (b : Addr) {f : LsaInfo → LsaInfo} (hf : ∀ l, ((f l).header, (f l).lsdb) = (l.header, l.lsdb)) :
    Within (Keeping Filed) (modifyInfo b f : M ρ Unit) := fun _ _ h => Filed.of_update h fun l => hf l.toLsaInfo

theorem plain_filed : Plain (Keeping (Filed (ρ := ρ))) where
  fail := filed_of_state (fun _ _ h => h) fun _ => rfl
  other hf := filed_of_state (fun s _ h => h.of_kernel (hf s)) fun s => databases_of_kernel (hf s)
  interface oi _ hf := by
    refine filed_modifyInterface oi (fun i _ h => .inl (h.of_kernel (hf i))) fun i => ?_
    have h := hf i
    simp only [Interface.kernel, Prod.mk.injEq] at h
    rw [h.1, h.2.2.1]
  area oa _ hf := by
    refine filed_modifyArea oa (fun o _ h => h.of_kernel (hf o)) fun o => ?_
    have h := hf o
    simp only [Area.kernel, Prod.mk.injEq] at h
    exact h.2.2.1
  neighbor on _ hf := filed_modifyNeighbor on fun n => list_exchange (Prod.mk.inj (hf n)).2
  event _ := filed_of_state (fun _ _ h => h) fun _ => rfl
  timer _ := filed_of_state (fun _ _ h => h) fun _ => rfl
  gettime := fun _ _ h => Filed.tick h
  ageCurrent a := fun _ _ h => Filed.refresh h a
  flag a _ hf := filed_modifyInfo a fun l => by
    have h := hf l
    simp only [Prod.mk.injEq] at h
    rw [h.1, h.2.2.2.2]
  lsaCopy a := fun s m h => by
    have hold := h.refresh a
    exact hold.of_push fun d hd => hold.tagged a d hd
  lsaCreate age header body := fun s m h => Filed.of_push (Filed.tick h) fun d hd => by cases hd

/-- What goes on a list, or into a database that it suits. -/
theorem Filed.lsdbAdd [RouteCalc ρ] (h : Filed (s, m)) {db : Lsdb} (ha : a < m.heap.length)
    (hfits : db.Scoped → db.Fits (m.lsa a).header.type) : Filed ((lsdbAdd a db : M ρ Unit) s m).2 := by
  have hput : Filed ((db.put (insertLsa m.key a (db.get s)).1 : M ρ Unit) s m).2 := by
    refine h.put ((h.ordered_get db).insertLsa ha fun b => h.lt_of_get) fun b hb => ?_
    obtain rfl | hb := mem_insertLsa hb
    · exact .inr ⟨ha, hfits⟩
    · exact .inl hb
  have hhook : Within (Keeping Filed)
      ((insertLsa m.key a (db.get s)).2.elim (hookInsert db a) (fun old => hookReplace db old a) : M ρ Unit) := by
    cases (insertLsa m.key a (db.get s)).2 with
    | none => exact Plain.hookInsert plain_filed db a
    | some old => exact Plain.hookReplace plain_filed db old a
  have hrun : Sibling.lsdbAdd a db s m = (db.put (insertLsa m.key a (db.get s)).1 >>= fun _ =>
      (insertLsa m.key a (db.get s)).2.elim (hookInsert db a) fun old => hookReplace db old a : M ρ Unit) s m := by
    have hobserve : (observe : M ρ (State ρ)) s m = (s, s, m) := rfl
    have hkeys : (keys : M ρ (Addr → Option LsaKey)) s m = (m.key, s, m) := rfl
    rw [Sibling.lsdbAdd, run_bind hobserve, run_bind hkeys]
    cases (insertLsa m.key a (db.get s)).2 <;> rfl
  rw [hrun]
  exact hhook _ _ hput

theorem filed_lsdbRemove (b : Addr) (db : Lsdb) : Within (Keeping Filed) (lsdbRemove b db : M ρ Unit) := by
  intro s m h
  obtain ⟨fault, hassert⟩ := Adjoins.assert_at (decide (b ∈ db.get s)) s m
  have hassert' : Filed ({ s with fault := fault }, m) := by
    have hkept := Plain.assert plain_filed (decide (b ∈ db.get s)) s m h
    rwa [hassert] at hkept
  have hget : db.get { s with fault := fault } = db.get s := by cases db <;> rfl
  have hput : Filed ((db.put ((db.get s).erase b) : M ρ Unit) { s with fault := fault } m).2 :=
    hassert'.put ((h.ordered_get db).sublist List.erase_sublist) fun c hc => .inl (hget ▸ List.mem_of_mem_erase hc)
  have hrun : lsdbRemove b db s m =
      (db.put ((db.get s).erase b) >>= fun _ => hookRemove db b : M ρ Unit) { s with fault := fault } m := by
    have hbind : lsdbRemove b db s m = (assert (decide (b ∈ db.get s)) >>= fun _ =>
      db.put ((db.get s).erase b) >>= fun _ =>
        hookRemove db b : M ρ Unit) s m := rfl
    rw [hbind, run_bind hassert]
  rw [hrun]
  exact Plain.hookRemove plain_filed db b _ _ hput

theorem filed_copyTo [RouteCalc ρ] (b : Addr) {db : Lsdb} (hdb : ¬ db.Scoped) :
    Within (Keeping Filed) (copyTo b db : M ρ Unit) := by
  intro s m h
  have hcopy := Plain.lsaCopy plain_filed b s m h
  refine hcopy.lsdbAdd ?_ fun hscoped => absurd hscoped hdb
  show (m.refresh b).heap.length < ((m.refresh b).push ((m.refresh b).lsa b).copy).heap.length
  simp [Mem.push]

theorem filed_retransmit [RouteCalc ρ] (b : Addr) (on : NbrRef) : Within (Keeping Filed) (retransmit b on : M ρ Unit) :=
  .bind (filed_modifyInfo b fun _ => rfl) fun _ => filed_copyTo b id

theorem filed_summarize [RouteCalc ρ] (on : NbrRef) (b : Addr) : Within (Keeping Filed) (summarize on b : M ρ Unit) := by
  refine .bind (Plain.isMaxage plain_filed b) fun gone => .ite ?_ ?_
  · exact (filed_retransmit b on : Within (Keeping Filed) (retransmit b on : M ρ Unit))
  · exact (filed_copyTo b id : Within (Keeping Filed) (copyTo b (.neighbor on .summaryList) : M ρ Unit))

/-- The time of installation changes neither the header nor the database. -/
theorem filed_stampInstalled (b : Addr) (h : Filed (s, m)) : ∃ m', (stampInstalled b : M ρ Unit) s m = ((), s, m') ∧
    Filed (s, m') ∧ m'.heap.length = m.heap.length ∧ (m'.lsa b).header = (m.lsa b).header ∧
      (m'.lsa b).lsdb = (m.lsa b).lsdb := by
  have hstamp := kept_update (m := m.tick.refresh b) (a := b) (f := fun l => { l with installed := m.clock 0 })
    (fun _ => rfl) b
  have hrefresh := kept_update (m := m.tick.tick) (a := b) (f := fun l => { l with age := l.ageAt (m.clock 1) })
    (fun _ => rfl) b
  refine ⟨(m.tick.refresh b).update b fun l => { l with installed := m.clock 0 }, rfl, ?_, ?_, ?_, ?_⟩
  · exact (h.tick.refresh b).of_update fun _ => rfl
  · simp [Mem.update, Mem.refresh, Mem.tick]
  · exact hstamp.1.trans hrefresh.1
  · exact hstamp.2.trans hrefresh.2

theorem filed_installLsa [RouteCalc ρ] (b : Addr) : Within (Keeping Filed) (installLsa b : M ρ Unit) := by
  intro s m h
  obtain ⟨m', hrun, hfiled, hlength, hheader, hlsdb⟩ := filed_stampInstalled b h
  have hinstall : (installLsa b : M ρ Unit) s m = (addTo (m.lsa b).lsdb b : M ρ Unit) s m' := by
    have hbind : (installLsa b : M ρ Unit) s m = (stampInstalled b >>= fun _ =>
      addTo (m.lsa b).lsdb b : M ρ Unit) s m := rfl
    rw [hbind, run_bind hrun]
  rw [hinstall]
  cases hdb : (m.lsa b).lsdb with
  | none => exact Plain.fail plain_filed s m' hfiled
  | some d =>
      refine hfiled.lsdbAdd (hlength.symm ▸ Filed.lt_of_tagged hdb) fun _ => ?_
      rw [hheader]
      exact h.tagged b d hdb

/-- The same, of an LSA that is on the heap. -/
def FiledWith (his : Addr) (x : State ρ × Mem) : Prop := Filed x ∧ his < x.2.heap.length

theorem filedWith {α : Type} {his : Addr} {p : M ρ α} (hfiled : Within (Keeping Filed) p) (hquiet : Within Quiet p) :
    Within (Keeping (FiledWith his)) p := fun s m h => ⟨hfiled s m h.1, h.2.trans_le (hquiet s m).length⟩

theorem filedWith_dbdescLsdb {his : Addr} (on : NbrRef) (type : UInt16) :
    Within (Keeping (FiledWith his)) (dbdescLsdb on type : M ρ (Option Lsdb)) := by
  unfold dbdescLsdb
  cases lsaScope type with
  | reserved => exact .bind (filedWith (Plain.fail plain_filed) quiet_fail) fun _ => .pure _
  | _ => exact .pure _

theorem filedWith_request [RouteCalc ρ] (on : NbrRef) (his : Addr) :
    Within (Keeping (FiledWith his)) (lsdbAdd his (.neighbor on .requestList) : M ρ Unit) :=
  fun s m h => ⟨h.1.lsdbAdd h.2 False.elim, h.2.trans_le (quiet_lsdbAdd his id s m).length⟩

theorem filed_dbdescHeaderRecv [RouteCalc ρ] (on : NbrRef) (frame : List UInt8) (off : Nat) :
    Within (Keeping Filed) (dbdescHeaderRecv on frame off : M ρ Unit) := by
  intro s m h
  have hcreate : (lsaCreateHeaderonly (u16At frame off) (lsaHeaderAt frame off) : M ρ Addr) s m =
      (m.heap.length, s, m.tick.push (Lsa.born (.ofHeader (lsaHeaderAt frame off) [] true) (u16At frame off)
        (m.clock 0))) :=
    rfl
  have hcreated : Filed (s, m.tick.push (Lsa.born (.ofHeader (lsaHeaderAt frame off) [] true) (u16At frame off)
    (m.clock 0))) :=
    h.tick.of_push fun d hd => by cases hd
  rw [dbdescHeaderRecv, run_bind hcreate]
  refine (Within.bind (R := Keeping (FiledWith m.heap.length)) (filedWith_dbdescLsdb on _)
    (fun lsdb => .bind (Plain.lsdbLookup _ _) fun mine => ?_) s _ ⟨hcreated, by simp [Mem.push, Mem.tick]⟩).1
  cases mine with
  | none => exact filedWith_request on _
  | some mine =>
      refine .bind (filedWith (Plain.lsaCompare plain_filed _ _) (quiet_lsaCompare _ _)) fun _ => ?_
      exact .ite (filedWith_request on _) (.pure _)

theorem filed_forgetNeighbor (on : NbrRef) : Within (Keeping Filed) (forgetNeighbor on : M ρ Unit) := by
  refine .bind (filed_modifyInterface on.oi (fun i as h => .inl ?_) fun _ => rfl) fun _ => ?_
  · obtain h | h | h | h | ⟨n, hn, h⟩ := h
    · exact .inl h
    · exact .inr (.inl h)
    · exact .inr (.inr (.inl h))
    · exact .inr (.inr (.inr (.inl h)))
    · exact .inr (.inr (.inr (.inr ⟨n, List.mem_of_mem_eraseP hn, h⟩)))
  · exact filed_of_state (fun _ _ h => h) fun _ => rfl

theorem filed_meet (oi : Nat) (frame : List UInt8) : Within (Keeping Filed)
    (modifyInterface oi fun i => { i with neighborList := i.neighborList ++ [Neighbor.met frame] } : M ρ Unit) := by
  refine filed_modifyInterface oi (fun i as h => ?_) fun _ => rfl
  obtain h | h | h | h | ⟨n, hn, h⟩ := h
  · exact .inl (.inl h)
  · exact .inl (.inr (.inl h))
  · exact .inl (.inr (.inr (.inl h)))
  · exact .inl (.inr (.inr (.inr (.inl h))))
  · obtain hn | hn := List.mem_append.mp hn
    · exact .inl (.inr (.inr (.inr (.inr ⟨n, hn, h⟩))))
    · -- a neighbor that is met has nothing on its lists
      obtain rfl := List.mem_singleton.mp hn
      obtain ⟨list, h⟩ := h
      exact .inr (h.trans (by cases list <;> rfl))

/-- An LSA that gets a database it suits. -/
theorem Filed.tag (h : Filed (s, m)) {f : LsaInfo → LsaInfo} {d : Lsdb}
    (hf : ∀ l, ((f l).header, (f l).lsdb) = (l.header, some d)) (hfits : d.Fits (m.lsa a).header.type) :
    Filed ((modifyInfo a f : M ρ Unit) s m).2 := by
  have hheader : ∀ b, ((m.update a fun l => { l with toLsaInfo := f l.toLsaInfo }).lsa b).header = (m.lsa b).header := by
    intro b
    rw [lsa_update]
    split
    · exact (Prod.mk.inj (hf _)).1
    · rfl
  refine h.of_heap (List.length_modify _ _ _).ge (fun b _ => hheader b) fun b e hb => ?_
  rw [hheader b]
  rw [lsa_update] at hb
  split at hb
  · next heq =>
      obtain rfl : d = e := Option.some.inj ((Prod.mk.inj (hf _)).2.symm.trans hb)
      rw [← heq.1]
      exact hfits
  · exact h.tagged b e hb

theorem climbs_filed [RouteCalc ρ] : Climbs (Keeping (Filed (ρ := ρ))) where
  toPlain := plain_filed
  queue a db hdb := filed_copyTo a (by cases db <;> first | exact id | exact hdb.elim)
  unqueue a db _ := filed_lsdbRemove a db
  unrequest a on := filed_lsdbRemove a _
  retransmit := filed_retransmit
  tag a d f hf s m hfits h := h.tag (fun l => by
    have h := hf l
    simp only [Prod.mk.injEq] at h
    rw [h.1, h.2.2.2.2]) hfits
  install := filed_installLsa
  setAge a age := fun _ _ h => Filed.of_update h fun _ => rfl
  badLsreq _ := filed_of_state (fun _ _ h => h) fun _ => rfl
  acked a on := filed_lsdbRemove a _
  off t := by
    cases t with
    | none => exact .pure _
    | some t => exact filed_of_state (fun s _ h => by split at h <;> exact h) fun s => by split <;> rfl
  lower on _ := filed_modifyNeighbor on fun _ _ => rfl
  dbdesc on _ hf := filed_modifyNeighbor on fun n list => by
    have h := hf n
    simp only [Neighbor.lists, Prod.mk.injEq] at h
    exact congrFun h.2.2 list
  negotiate _ := filed_of_state (fun _ _ h => h) fun _ => rfl
  dbdescTimer _ := filed_of_state (fun _ _ h => h) fun _ => rfl
  summarized a on := filed_lsdbRemove a _
  described a on := filed_lsdbRemove a _
  meet oi frame s m _ := filed_meet oi frame s m
  forget := filed_forgetNeighbor
  raise _ on := filed_modifyNeighbor on fun _ _ => rfl
  done on := ⟨filed_of_state (fun _ _ h => h) fun _ => rfl, filed_of_state (fun _ _ h => h) fun _ => rfl⟩
  headerRecv := filed_dbdescHeaderRecv
  summarize := filed_summarize
  describe a on := filed_copyTo a id

end Filed

/-- An assertion has failed, or freed memory has been used. -/
def Faulted (x : State ρ × Mem) : Prop := x.1.fault = true

section Faulted

theorem faulted_put (db : Lsdb) (as : List Addr) : Within (Keeping Faulted) (db.put as : M ρ Unit) :=
  fun _ _ h => by cases db <;> exact h

theorem plain_faulted : Plain (Keeping (Faulted (ρ := ρ))) where
  fail := fun _ _ _ => rfl
  other hf := fun s _ h => by
    have hkernel := hf s
    simp only [State.kernel, Prod.mk.injEq] at hkernel
    exact hkernel.2.2.2.2.2.2.trans h
  interface _ _ _ := fun _ _ h => h
  area _ _ _ := fun _ _ h => h
  neighbor _ _ _ := fun _ _ h => h
  event _ := fun _ _ h => h
  timer _ := fun _ _ h => h
  gettime := fun _ _ h => h
  ageCurrent _ := fun _ _ h => h
  flag _ _ _ := fun _ _ h => h
  lsaCopy _ := fun _ _ h => h
  lsaCreate _ _ _ := fun _ _ h => h

variable [RouteCalc ρ]

theorem faulted_lsdbAdd (a : Addr) (db : Lsdb) : Within (Keeping Faulted) (lsdbAdd a db : M ρ Unit) :=
  Plain.lsdbAdd plain_faulted (faulted_put db) a

omit [RouteCalc ρ] in
theorem faulted_lsdbRemove (a : Addr) (db : Lsdb) : Within (Keeping Faulted) (lsdbRemove a db : M ρ Unit) :=
  Plain.lsdbRemove plain_faulted (faulted_put db) a

theorem faulted_copyTo (a : Addr) (db : Lsdb) : Within (Keeping Faulted) (copyTo a db : M ρ Unit) :=
  .bind (Plain.lsaCopy plain_faulted a) fun _ => faulted_lsdbAdd _ db

theorem faulted_retransmit (a : Addr) (on : NbrRef) : Within (Keeping Faulted) (retransmit a on : M ρ Unit) :=
  .bind (fun _ _ h => h) fun _ => faulted_copyTo a _

theorem faulted_installLsa (a : Addr) : Within (Keeping Faulted) (installLsa a : M ρ Unit) := by
  refine .bind (Plain.info a) fun l => .bind (fun _ _ h => h) fun _ => ?_
  cases l.lsdb with
  | none => exact Plain.fail plain_faulted
  | some db => exact faulted_lsdbAdd a db

theorem faulted_dbdescHeaderRecv (on : NbrRef) (frame : List UInt8) (off : Nat) :
    Within (Keeping Faulted) (dbdescHeaderRecv on frame off : M ρ Unit) := by
  have hlsdb : Within (Keeping Faulted) (dbdescLsdb on (lsaHeaderAt frame off).type : M ρ (Option Lsdb)) := by
    unfold dbdescLsdb
    cases lsaScope (lsaHeaderAt frame off).type with
    | reserved => exact .bind (Plain.fail plain_faulted) fun _ => .pure _
    | _ => exact .pure _
  refine .bind (fun _ _ h => h) fun his => .bind hlsdb fun lsdb => .bind (Plain.lsdbLookup _ _) fun mine => ?_
  cases mine with
  | none => exact faulted_lsdbAdd _ _
  | some mine => exact .bind (Plain.lsaCompare plain_faulted _ _) fun _ => .ite (faulted_lsdbAdd _ _) (.pure _)

theorem faulted_summarize (on : NbrRef) (a : Addr) : Within (Keeping Faulted) (summarize on a : M ρ Unit) := by
  refine .bind (Plain.isMaxage plain_faulted a) fun gone => .ite ?_ ?_
  · exact (faulted_retransmit a on : Within (Keeping Faulted) (retransmit a on : M ρ Unit))
  · exact (faulted_copyTo a _ : Within (Keeping Faulted) (copyTo a (.neighbor on .summaryList) : M ρ Unit))

/-- A fault stays. -/
theorem climbs_faulted : Climbs (Keeping (Faulted (ρ := ρ))) where
  toPlain := plain_faulted
  queue a db _ := faulted_copyTo a db
  unqueue a db _ := faulted_lsdbRemove a db
  unrequest a on := faulted_lsdbRemove a _
  retransmit := faulted_retransmit
  tag _ _ _ _ _ _ _ := fun h => h
  install := faulted_installLsa
  setAge _ _ := fun _ _ h => h
  badLsreq _ := fun _ _ h => h
  acked a on := faulted_lsdbRemove a _
  off t := by
    cases t with
    | none => exact .pure _
    | some t =>
        intro s m h
        show (if t ∈ s.events then _ else _ : State ρ).fault = true
        split <;> exact h
  lower _ _ := fun _ _ h => h
  dbdesc _ _ _ := fun _ _ h => h
  negotiate _ := fun _ _ h => h
  dbdescTimer _ := fun _ _ h => h
  summarized a on := faulted_lsdbRemove a _
  described a on := faulted_lsdbRemove a _
  meet _ _ _ _ _ := fun h => h
  forget _ := fun _ _ h => h
  raise _ _ := fun _ _ h => h
  done _ := ⟨fun _ _ h => h, fun _ _ h => h⟩
  headerRecv := faulted_dbdescHeaderRecv
  summarize := faulted_summarize
  describe a on := faulted_copyTo a _

end Faulted

section Runs

variable [RouteCalc ρ] {x y : Replica ρ} {e : Input}

/-- A step that has a result ran its task to that without a fault. -/
theorem step_result (h : (sibling.step x e).result = some y) :
    ∃ m, (runTask (x.enter e).1 (x.enter e).2 (x.mem e.clock e.moves)).2 = (y.state, m) ∧ m.heap = y.heap ∧
      y.state.fault = false := by
  have hleave : (Replica.leave (runTask (x.enter e).1 (x.enter e).2 (x.mem e.clock e.moves)).2.1
      (runTask (x.enter e).1 (x.enter e).2 (x.mem e.clock e.moves)).2.2.heap).result = some y := h
  generalize (runTask (x.enter e).1 (x.enter e).2 (x.mem e.clock e.moves)).2 = q at hleave
  obtain ⟨s, m⟩ := q
  unfold Replica.leave at hleave
  dsimp only at hleave
  split at hleave
  · cases hleave
  · next hfault =>
      obtain rfl := Option.some.inj hleave
      exact ⟨m, rfl, rfl, by simpa using hfault⟩

omit [RouteCalc ρ] in
/-- What a step starts from is the state it was in, but for the thread that is run and what comes from outside. -/
theorem enter_state (x : Replica ρ) (e : Input) : ∃ events timers, (x.enter e).2 =
    { x.state with outside := e.outside, sent := [], events := events, timers := timers } := by
  unfold Replica.enter fetch
  cases e.event with
  | recv oi xid frame => exact ⟨_, _, rfl⟩
  | event =>
      dsimp only
      split
      · exact ⟨_, _, rfl⟩
      · exact ⟨_, _, rfl⟩
  | timer t =>
      dsimp only
      split
      · exact ⟨_, _, rfl⟩
      · exact ⟨_, _, rfl⟩

theorem filed_step (h : ∀ clock moves, Filed (x.state, x.mem clock moves)) (hstep : (sibling.step x e).result = some y) :
    ∀ clock moves, Filed (y.state, y.mem clock moves) := by
  obtain ⟨m, hrun, hheap, -⟩ := step_result hstep
  obtain ⟨events, timers, henter⟩ := enter_state x e
  have hentered : Filed ((x.enter e).2, x.mem e.clock e.moves) := by
    rw [henter]
    exact (h e.clock e.moves).of_state (fun _ hrow => .inr hrow) rfl
  have hdone : Filed (y.state, m) := hrun ▸ Climbs.runTask climbs_filed (x.enter e).1 _ _ hentered
  have hlsa : ∀ clock moves a, (y.mem clock moves).lsa a = m.lsa a := fun clock moves a => by
    simp only [Mem.lsa, Replica.mem, hheap]
  refine fun clock moves => ⟨fun a ha => ?_, fun as hrow => ?_, fun a d ha => ?_, fun d hd a ha => ?_⟩
  · show a < y.heap.length
    rw [← hheap]
    exact hdone.listed a ha
  · refine List.Pairwise.imp (fun {b c} hlt => ?_) (hdone.ordered as hrow)
    rwa [hlsa, hlsa]
  · show d.Fits ((y.mem clock moves).lsa a).header.type
    rw [hlsa]
    exact hdone.tagged a d (by rw [← hlsa clock moves]; exact ha)
  · show d.Fits ((y.mem clock moves).lsa a).header.type
    rw [hlsa]
    exact hdone.stored d hd a ha

/-- A sibling that has not got a message yet. -/
structure Replica.Bare (x : Replica ρ) : Prop where
  rows : ∀ as, x.state.Row as → as = []
  heap : x.heap = []
  fault : x.state.fault = false

omit [RouteCalc ρ] in
theorem Replica.Bare.not_lists (h : x.Bare) (a : Addr) : ¬ x.state.Lists a := by
  rintro ⟨as, hrow, ha⟩
  rw [h.rows as hrow] at ha
  exact absurd ha List.not_mem_nil

omit [RouteCalc ρ] in
theorem Replica.Bare.filed (h : x.Bare) (clock : Nat → Timeval) (moves : Nat → Int) :
    Filed (x.state, x.mem clock moves) where
  listed a ha := (h.not_lists a ha).elim
  ordered as hrow := (h.rows as hrow).symm ▸ List.Pairwise.nil
  tagged a d ha := by
    have hlt := Filed.lt_of_tagged (m := x.mem clock moves) ha
    rw [show (x.mem clock moves).heap = [] from h.heap] at hlt
    exact absurd hlt (Nat.not_lt_zero _)
  stored d _ a ha := (h.not_lists a (lists_of_get ha)).elim

/-- Filed is every state that a run from the start gets to. -/
theorem filed_of_reachable (hx : x.Bare) (h : sibling.Reachable x y) (clock : Nat → Timeval) (moves : Nat → Int) :
    Filed (y.state, y.mem clock moves) := by
  obtain ⟨es, hrun⟩ := h
  exact sibling.run_invariant (P := fun z => ∀ clock moves, Filed (z.state, z.mem clock moves)) hx.filed
    (fun _ _ _ hz hstep => filed_step hz hstep) hrun clock moves

theorem bare_withInterface : (⟨withInterface default, []⟩ : Replica Unit).Bare where
  rows as hrow := by
    obtain h | ⟨o, ho, h⟩ | ⟨i, hi, h⟩ := hrow
    · exact h
    · obtain rfl := List.mem_singleton.mp ho
      exact h.elim id id
    · obtain rfl := List.mem_singleton.mp hi
      obtain h | h | h | h | ⟨n, hn, -⟩ := h
      · exact h
      · exact h
      · exact h
      · exact h
      · exact absurd hn List.not_mem_nil
  heap := rfl
  fault := rfl

/-- A DbDesc with these bits and headers. -/
def dbdescFrame (bits : UInt8) (seqnum : UInt32) (headers : List UInt8) : List UInt8 :=
  ospf6Header messageTypeDbdesc (28 + headers.length) 2 0 ++ [0, 0, 0, 0x13, 5, 220, 0, bits] ++ htonl seqnum ++ headers

/-- An LSUpdate with the LSA of the last DbDesc. -/
def sampleUpdate : List UInt8 :=
  ospf6Header messageTypeLsupdate 44 2 0 ++ htonl 1 ++ (sampleRaw 4).header.bytes 0 ++ (sampleRaw 4).body

/-- From a Hello to Full: the DbDesc that opens the exchange, the last DbDesc, which has a header that becomes a request,
and the update that answers it; then the sibling originates a Router-LSA of its own. -/
def adjacency : List Input :=
  [.recv 0 77 twowayHello, .recv 0 78 (dbdescFrame 7 100 []), .event, .event, .event, .event, .event,
    .recv 0 79 (dbdescFrame 1 101 ((sampleRaw 4).header.bytes 0)), .event, .event, .event, .event,
    .recv 0 80 sampleUpdate, .event, .event, .event, .event].map fun e => ⟨e, default, fun _ => ⟨5, 0⟩, fun _ => 0⟩

theorem filed_of_adjacency :
    ∃ y, (sibling.run (⟨withInterface default, []⟩ : Replica Unit) adjacency).result = some y ∧
      ((Lsdb.area 0).get y.state).length = 2 ∧ Filed (y.state, y.mem (fun _ => ⟨7, 0⟩) fun _ => 0) := by
  have hends : (sibling.run (⟨withInterface default, []⟩ : Replica Unit) adjacency).result.map
      (fun y => ((Lsdb.area 0).get y.state).length) = some 2 := by
    decide +kernel
  obtain ⟨y, hy, hlength⟩ := Option.map_eq_some_iff.mp hends
  exact ⟨y, hy, hlength, filed_of_reachable bare_withInterface ⟨_, hy⟩ _ _⟩

theorem fault_of_reachable (hx : x.Bare) (h : sibling.Reachable x y) : y.state.fault = false := by
  obtain ⟨es, hrun⟩ := h
  exact sibling.run_invariant (P := fun z => z.state.fault = false) hx.fault
    (fun _ _ _ _ hstep => (step_result hstep).choose_spec.2.2) hrun

end Runs

end Harry.Sibling
