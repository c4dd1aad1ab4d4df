import Harry.SiblingRouteTable

/-! What `ospf6_route_add` and `ospf6_route_remove` do to the groups of a table, and runs of them. A route that is
added is put into the group of its prefix, or replaces a route of the same origin there, or has a group of its own; the
list through all groups and the tree are changed alike, so that the assertions of the functions hold. -/

namespace Harry.Routes

open Harry.Base Harry.Table Harry.Sibling

/-- Who holds a route: the table if it is in it, and the loop that stands at it. -/
def holders (l : List Addr) (cur : Option Addr) (a : Addr) : Nat :=
  (if a ∈ l then 1 else 0) + (if cur = some a then 1 else 0)

/-- A table with its groups, while a loop may stand at one route. -/
structure Rep (s : Rtable) (cur : Option Addr) (gs : List (List Bool × List Addr)) : Prop extends Shape s gs where
  cur_live : ∀ a ∈ cur, s.live a = true
  lock : ∀ a, s.live a = true → s.lock a = holders (chain gs) cur a

/-- A route that is not yet in a table. -/
structure Fresh (s : Rtable) (a : Addr) : Prop where
  live : s.live a = true
  rnode : s.rnode a = none
  lock : s.lock a = 0
  next : s.next a = none
  prev : s.prev a = none
  inTable : s.inTable a = false

section Add

variable {s : Rtable} {gs A B : List (List Bool × List Addr)} {a : Addr} {b : List Bool} {g : List Addr}

theorem Fresh.not_mem (h : Fresh s a) (hs : Shape s gs) : a ∉ chain gs := by
  intro hmem
  have hpos := hs.lock_pos a hmem
  rw [h.lock] at hpos
  exact absurd hpos (by simp)

theorem Shape.withNode (h : Shape s gs) (ha : a ∉ chain gs) : Shape (withNode s a) gs where
  kept := h.kept.routeNodeGet _
  stored := (stored_congr h.kept (h.kept.routeNodeGet _) h.kept.routeNodeGet_info).trans h.stored
  info := by
    simp only [Routes.withNode, h.kept.routeNodeGet_info]
    exact h.info
  nonempty := h.nonempty
  dest := h.dest
  linked := h.linked
  nodup := h.nodup
  count := h.count
  live := h.live
  inTable := h.inTable
  rnode := by
    intro c hc
    have hca : c ≠ a := fun hca => ha (hca ▸ hc)
    simpa [Routes.withNode, Function.update_of_ne hca] using h.rnode c hc
  lock_pos := h.lock_pos

/-- A route between two others. -/
def linked (s : Rtable) (before : Option Addr) (a : Addr) (behind : Option Addr) : Rtable :=
  { s with
    next := Function.update (updateAt s.next before (some a)) a behind
    prev := Function.update (updateAt s.prev behind (some a)) a before }

theorem link_eq {before behind : Option Addr} (ha : s.live a = true) (hbefore : ∀ c ∈ before, s.live c = true)
    (hbehind : ∀ c ∈ behind, s.live c = true) (hne : behind ≠ some a) :
    link s before a behind = .ok (linked s before a behind) := by
  have hself : ∀ c ∈ some a, s.live c = true := by simpa using ha
  simp only [link, setNext, setPrev]
  rw [if_pos hbefore]
  simp only [bind, Except.bind]
  rw [if_pos hself]
  simp only []
  rw [if_pos hbehind]
  simp only []
  rw [if_pos hself]
  simp only [linked, updateAt_some, updateAt_update_comm hne]

/-- The groups behind one have other prefixes. -/
theorem Shape.dest_behind {M : List (List Bool × List Addr)} (h : Shape s (A ++ (M ++ B)))
    (hpw : (A.map Prod.fst ++ b :: B.map Prod.fst).Pairwise (· < ·)) :
    ∀ c ∈ (chain B).head?, (s.route c).dest ≠ b := by
  intro c hc
  obtain ⟨x, hx, hcx⟩ := mem_chain.mp (List.mem_of_mem_head? hc)
  rw [h.dest x (by simp [hx]) c hcx]
  exact ne_of_gt ((List.pairwise_cons.mp (List.pairwise_append.mp hpw).2.1).1 x.1 (List.mem_map_of_mem hx))

/-- What a route with a prefix that is in the table finds. -/
theorem Shape.findPlace (h : Shape s (A ++ ([(b, g)] ++ B))) (ha : a ∉ chain (A ++ ([(b, g)] ++ B)))
    (hpw : (A.map Prod.fst ++ b :: B.map Prod.fst).Pairwise (· < ·)) (hb : (s.route a).dest = b) :
    findPlace (Routes.withNode s a) a (Routes.withNode s a).count none ((Routes.withNode s a).table.info b) =
      (groupSearch s.route (s.route a) g).map (placeOf none (chain B)) := by
  have hw := h.withNode ha
  have hg : g ≠ [] := h.nonempty (b, g) (by simp)
  have hinfo : (Routes.withNode s a).table.info b = (g ++ chain B).head? := by
    rw [hw.info (b, g) (by simp), List.head?_append_of_ne_nil _ hg]
  have hchain : chain (A ++ ([(b, g)] ++ B)) = chain A ++ (g ++ chain B) := by simp
  rw [hinfo]
  refine findPlace_eq (l := chain A) ?_ (fun c hc => ?_) (fun c hc => ?_) (fun c hc => ?_) ?_
  · rw [← hchain]
    exact hw.linked
  · exact hw.live c (by rw [hchain]; simp only [List.mem_append] at hc ⊢; tauto)
  · exact (h.dest (b, g) (by simp) c hc).trans hb.symm
  · rw [show ((Routes.withNode s a).route a).dest = b from hb]
    exact h.dest_behind hpw c hc
  · rw [hw.count, hchain]
    simp

/-- The first part of `ospf6_route_add`, of a route that is not yet in a table. -/
theorem routeAdd_fresh (hf : Fresh s a) :
    ¬ ¬ (s.live a = true ∧ s.rnode a = none ∧ s.lock a = 0 ∧ s.next a = none ∧ s.prev a = none) :=
  not_not.mpr ⟨hf.live, hf.rnode, hf.lock, hf.next, hf.prev⟩

/-- A route that is in the table already: the new one is deleted. -/
theorem Rep.add_identical (h : Rep s none (A ++ ([(b, g)] ++ B))) (hf : Fresh s a)
    (hpw : (A.map Prod.fst ++ b :: B.map Prod.fst).Pairwise (· < ·)) (hb : (s.route a).dest = b)
    {before behind : List Addr} {o : Addr} (hg : groupSearch s.route (s.route a) g = .ok (before, some o, behind))
    (hid : isIdentical (s.route o) (s.route a) = true) :
    let s' := setFlag (routeDelete (Routes.withNode s a) a) o fun f => { f with add := true }
    routeAdd s a = .ok (s', o) ∧ Rep s' none (A ++ ([(b, g)] ++ B)) := by
  have ha := hf.not_mem h.toShape
  have hw := h.toShape.withNode ha
  have hrep : Rep (setFlag (routeDelete (Routes.withNode s a) a) o fun f => { f with add := true }) none
      (A ++ ([(b, g)] ++ B)) := by
    refine ⟨⟨hw.kept, hw.stored, hw.info, hw.nonempty, hw.dest, hw.linked, hw.nodup, hw.count, fun c hc => ?_, hw.inTable,
      hw.rnode, hw.lock_pos⟩, by simp, fun c hc => ?_⟩
    · have hca : c ≠ a := fun hca => ha (hca ▸ hc)
      simpa [setFlag, routeDelete, Function.update_of_ne hca] using hw.live c hc
    · have hca : c ≠ a := by
        rintro rfl
        simp [setFlag, routeDelete] at hc
      exact h.lock c (by simpa [setFlag, routeDelete, Routes.withNode, Function.update_of_ne hca] using hc)
  refine ⟨?_, hrep⟩
  have hplace := h.toShape.findPlace ha hpw hb
  rw [hg] at hplace
  have hroute : (Routes.withNode s a).route = s.route := rfl
  simp only [routeAdd, if_neg (routeAdd_fresh hf), hb, hplace, Except.map, placeOf, bind, Except.bind, hroute, hid,
    if_true, hrep.toShape.routeTableAssert]
  rfl

/-- A route comes first in its group, or it does not. -/
def setBestIf (first : Bool) (s : Rtable) (b : List Bool) (a : Addr) : Rtable :=
  if first then setBest s b a else s

section SetBestIf

variable {first : Bool}

@[simp]
theorem setBestIf_route : (setBestIf first s b a).route = s.route := by cases first <;> rfl

@[simp]
theorem setBestIf_next : (setBestIf first s b a).next = s.next := by cases first <;> rfl

@[simp]
theorem setBestIf_prev : (setBestIf first s b a).prev = s.prev := by cases first <;> rfl

@[simp]
theorem setBestIf_lock : (setBestIf first s b a).lock = s.lock := by cases first <;> rfl

@[simp]
theorem setBestIf_rnode : (setBestIf first s b a).rnode = s.rnode := by cases first <;> rfl

@[simp]
theorem setBestIf_inTable : (setBestIf first s b a).inTable = s.inTable := by cases first <;> rfl

@[simp]
theorem setBestIf_live : (setBestIf first s b a).live = s.live := by cases first <;> rfl

@[simp]
theorem setBestIf_count : (setBestIf first s b a).count = s.count := by cases first <;> rfl

theorem kept_setBestIf (h : Kept s.table) (hb : b ∈ s.table.top.nodes) (hl : 0 < s.table.lock b) :
    Kept (setBestIf first s b a).table := by
  cases first with
  | false => exact h
  | true => exact h.setInfo hb hl

/-- The node of a group that is not empty holds its first route, before and after. -/
theorem setBestIf_info {before behind : List Addr} (hinfo : before ≠ [] → s.table.info b = before.head?) :
    (setBestIf before.isEmpty s b a).table.info = Function.update s.table.info b (before ++ a :: behind).head? := by
  cases before with
  | nil => rfl
  | cons c before =>
      have hc := hinfo (by simp)
      simp only [setBestIf, List.isEmpty_cons, Bool.false_eq_true, if_false, List.cons_append, List.head?_cons]
      rw [List.head?_cons] at hc
      rw [← hc, Function.update_eq_self]

end SetBestIf

theorem decLock_of_ne {o c : Addr} (hc : c ≠ o) :
    (s.decLock o).live c = s.live c ∧ (s.decLock o).inTable c = s.inTable c ∧ (s.decLock o).lock c = s.lock c := by
  refine ⟨?_, ?_, Function.update_of_ne hc _ _⟩
  · simp only [Rtable.decLock]
    split
    · exact Function.update_of_ne hc _ _
    · rfl
  · simp only [Rtable.decLock]
    split
    · exact Function.update_of_ne hc _ _
    · rfl

theorem live_of_decLock {o c : Addr} (hc : (s.decLock o).live c = true) : s.live c = true := by
  simp only [Rtable.decLock] at hc
  split at hc
  · by_cases hco : c = o
    · simp [hco] at hc
    · rwa [Function.update_of_ne hco] at hc
  · exact hc

/-- The list of a table around the place of a route. -/
theorem Shape.around {before behind m : List Addr} (h : Shape s (A ++ ([(b, g)] ++ B)))
    (hg : g = before ++ (m ++ behind)) (ha : a ∉ chain (A ++ ([(b, g)] ++ B))) :
    chain (A ++ ([(b, g)] ++ B)) = (chain A ++ before) ++ m ++ (behind ++ chain B) ∧
      ((chain A ++ before) ++ a :: (behind ++ chain B)).Nodup := by
  have hchain : chain (A ++ ([(b, g)] ++ B)) = (chain A ++ before) ++ m ++ (behind ++ chain B) := by simp [hg]
  refine ⟨hchain, ?_⟩
  have hnd := h.nodup
  rw [hchain] at hnd ha
  rw [List.perm_middle.nodup_iff, List.nodup_cons]
  refine ⟨fun hmem => ha ?_, hnd.sublist ?_⟩
  · simp only [List.mem_append] at hmem ⊢
    tauto
  · simp

/-- The neighbours of a place. -/
theorem Shape.live_around {P m N : List Addr} (h : Shape s gs) (hchain : chain gs = P ++ m ++ N) (ha : a ∉ chain gs) :
    (∀ c ∈ P.getLast?, s.live c = true) ∧ (∀ c ∈ N.head?, s.live c = true) ∧ N.head? ≠ some a := by
  refine ⟨fun c hc => h.live c ?_, fun c hc => h.live c ?_, head?_ne_of_not_mem fun hm => ha ?_⟩
  · rw [hchain]
    simp [List.mem_of_getLast? hc]
  · rw [hchain]
    simp [List.mem_of_mem_head? hc]
  · rw [hchain]
    simp [hm]

/-- The state after a route has replaced another one. -/
def replaced (s : Rtable) (b : List Bool) (P : List Addr) (first : Bool) (o a : Addr) (N : List Addr) : Rtable :=
  setFlag ((((linked (setBestIf first (withNode s a) b a) P.getLast? a N.head?).join a).decLock o).incLock a) a
    fun f => { f with change := true }

theorem replaced_fields {P N : List Addr} {o : Addr} (first : Bool) (ho : s.lock o = 1) (hoa : o ≠ a)
    (ha : s.lock a = 0) :
    (replaced s b P first o a N).live = Function.update s.live o false ∧
      (replaced s b P first o a N).inTable = Function.update (Function.update s.inTable a true) o false ∧
      (replaced s b P first o a N).lock = Function.update (Function.update s.lock o 0) a 1 := by
  refine ⟨?_, ?_, ?_⟩ <;>
    simp [replaced, setFlag, Rtable.incLock, Rtable.decLock, Rtable.join, linked, withNode, ho, ha,
      Function.update_of_ne (Ne.symm hoa)]

theorem Rep.rep_replaced (h : Rep s none (A ++ ([(b, g)] ++ B))) (hf : Fresh s a)
    (hpw : (A.map Prod.fst ++ b :: B.map Prod.fst).Pairwise (· < ·)) (hb : (s.route a).dest = b)
    {before behind : List Addr} {o : Addr} (hg : g = before ++ ([o] ++ behind)) :
    Rep (replaced s b (chain A ++ before) before.isEmpty o a (behind ++ chain B)) none
      (A ++ (group b (before ++ a :: behind) ++ B)) := by
  have ha := hf.not_mem h.toShape
  have hw := h.toShape.withNode ha
  obtain ⟨hchain, hnd⟩ := h.toShape.around hg ha
  have hnd' : (chain A ++ ((before ++ a :: behind) ++ chain B)).Nodup := by simpa using hnd
  have hmem : ∀ c, c ∈ chain A ++ ((before ++ a :: behind) ++ chain B) ↔
      c = a ∨ c ∈ (chain A ++ before) ++ (behind ++ chain B) := by
    intro c
    simp only [List.mem_append, List.mem_cons]
    tauto
  have ho : o ∈ chain (A ++ ([(b, g)] ++ B)) := by
    rw [hchain]
    simp
  have hoa : o ≠ a := fun hoa => ha (hoa ▸ ho)
  have hno : o ∉ (chain A ++ before) ++ (behind ++ chain B) := by
    have hno := h.nodup
    rw [hchain, List.append_assoc, List.singleton_append, List.perm_middle.nodup_iff] at hno
    exact (List.nodup_cons.mp hno).1
  have hold : ∀ c, c ∈ chain (A ++ ([(b, g)] ++ B)) ↔ c = o ∨ c ∈ (chain A ++ before) ++ (behind ++ chain B) := by
    intro c
    rw [hchain]
    simp only [List.mem_append, List.mem_cons, List.not_mem_nil, or_false]
    tauto
  have hloc : s.lock o = 1 := by
    rw [h.lock o (h.live o ho), holders, if_pos ho]
    simp
  obtain ⟨hlive, hinTable, hlock⟩ := replaced_fields (b := b) (P := chain A ++ before)
    (N := behind ++ chain B) before.isEmpty hloc hoa hf.lock
  have hmemnode : b ∈ (Routes.withNode s a).table.top.nodes := hb ▸ routeNodeGet_mem
  have hposnode : 0 < (Routes.withNode s a).table.lock b := hb ▸ routeNodeGet_lock_pos
  have hinfo : before ≠ [] → (Routes.withNode s a).table.info b = before.head? := by
    intro hne
    rw [hw.info (b, g) (by simp), hg, List.head?_append_of_ne_nil _ hne]
  refine ⟨?_, by simp, fun c hc => ?_⟩
  · refine hw.setGroup (M := [(b, g)]) (by simp) hpw ?_ ?_ ?_ ?_ ?_ hnd' ?_ fun c hc => ?_
    · exact setBestIf_route
    · exact kept_setBestIf hw.kept hmemnode hposnode
    · exact setBestIf_info hinfo
    · intro c hc
      rw [List.perm_middle.mem_iff, List.mem_cons] at hc
      obtain rfl | hc := hc
      · exact hb
      · exact h.dest (b, g) (by simp) c (by rw [hg]; simp only [List.mem_append] at hc ⊢; tauto)
    · have hput := Linked.put (l := [o]) (x := a) (hchain ▸ hw.linked) hnd
      rw [List.append_assoc] at hput
      simpa [replaced, setFlag, Rtable.incLock, Rtable.decLock, Rtable.join, linked] using hput
    · have hcount := h.count
      rw [hchain] at hcount
      simp only [replaced, setFlag, Rtable.incLock, Rtable.decLock, Rtable.join, linked, setBestIf_count]
      rw [show (Routes.withNode s a).count = s.count from rfl, hcount]
      simp
    · rw [hlive, hinTable, hlock]
      obtain rfl | hc := (hmem c).mp hc
      · have hco : c ≠ o := Ne.symm hoa
        refine ⟨?_, ?_, ?_, by simp⟩
        · rw [Function.update_of_ne hco]
          exact hf.live
        · rw [Function.update_of_ne hco]
          simp
        · simp [replaced, setFlag, Rtable.incLock, Rtable.decLock, Rtable.join, linked, withNode]
      · have hco : c ≠ o := fun hco => hno (hco ▸ hc)
        have hc' := (hold c).mpr (.inr hc)
        have hca : c ≠ a := fun hca => ha (hca ▸ hc')
        refine ⟨?_, ?_, ?_, ?_⟩
        · rw [Function.update_of_ne hco]
          exact h.live c hc'
        · rw [Function.update_of_ne hco, Function.update_of_ne hca]
          exact h.inTable c hc'
        · simpa [replaced, setFlag, Rtable.incLock, Rtable.decLock, Rtable.join, linked] using hw.rnode c hc'
        · rw [Function.update_of_ne hca, Function.update_of_ne hco]
          exact h.lock_pos c hc'
  · have hco : c ≠ o := by
      rintro rfl
      simp [hlive] at hc
    rw [hlive, Function.update_of_ne hco] at hc
    have hlc := h.lock c hc
    have hchain' : chain (A ++ (group b (before ++ a :: behind) ++ B)) =
        chain A ++ ((before ++ a :: behind) ++ chain B) := by simp
    rw [hlock, hchain']
    by_cases hca : c = a
    · subst hca
      rw [holders, if_pos ((hmem c).mpr (.inl rfl))]
      simp
    · rw [Function.update_of_ne hca, Function.update_of_ne hco, hlc]
      simp only [holders, hmem, hold, hca, hco, false_or]

/-- A route with the prefix and the origin of another one takes its place. -/
theorem Rep.add_replaced (h : Rep s none (A ++ ([(b, g)] ++ B))) (hf : Fresh s a)
    (hpw : (A.map Prod.fst ++ b :: B.map Prod.fst).Pairwise (· < ·)) (hb : (s.route a).dest = b)
    {before behind : List Addr} {o : Addr} (hg : groupSearch s.route (s.route a) g = .ok (before, some o, behind))
    (hid : isIdentical (s.route o) (s.route a) = false) :
    routeAdd s a = .ok (replaced s b (chain A ++ before) before.isEmpty o a (behind ++ chain B), a) ∧
      Rep (replaced s b (chain A ++ before) before.isEmpty o a (behind ++ chain B)) none
        (A ++ (group b (before ++ a :: behind) ++ B)) := by
  have hgeq : g = before ++ ([o] ++ behind) := groupSearch_eq hg
  have hrep := h.rep_replaced hf hpw hb hgeq
  refine ⟨?_, hrep⟩
  have ha := hf.not_mem h.toShape
  have hw := h.toShape.withNode ha
  obtain ⟨hchain, hnd⟩ := h.toShape.around hgeq ha
  have hplace := h.toShape.findPlace ha hpw hb
  rw [hg] at hplace
  have ho : o ∈ chain (A ++ ([(b, g)] ++ B)) := by
    rw [hchain]
    simp
  have hoa : o ≠ a := fun hoa => ha (hoa ▸ ho)
  have hlinked := h.linked
  rw [hchain, List.append_assoc, List.singleton_append] at hlinked
  obtain ⟨hprev, hnext⟩ := hlinked.neighbours
  obtain ⟨hPlive, hNlive, hneb⟩ := h.toShape.live_around hchain ha
  -- the node holds the old route if nothing comes before it in the group
  have hbest : (if (Routes.withNode s a).table.info b = some o then setBest (Routes.withNode s a) b a
      else Routes.withNode s a) = setBestIf before.isEmpty (Routes.withNode s a) b a := by
    have hinfo : (Routes.withNode s a).table.info b = (before ++ ([o] ++ behind)).head? := by
      rw [hw.info (b, g) (by simp), ← hgeq]
    cases before with
    | nil => simp [hinfo, setBestIf]
    | cons c before =>
        have hco : c ≠ o := by
          rintro rfl
          have hno := h.nodup
          rw [hchain] at hno
          simp [List.nodup_append] at hno
        simp [hinfo, hco, setBestIf]
  let s₁ := setBestIf before.isEmpty (Routes.withNode s a) b a
  let s₂ := linked s₁ (chain A ++ before).getLast? a (behind ++ chain B).head?
  have hlive₁ : s₁.live = s.live := setBestIf_live
  have hlive₂ : (s₂.join a).live = s.live := setBestIf_live
  have hlock₂ : (s₂.join a).lock = s.lock := setBestIf_lock
  have hinTable₂ : s₂.inTable = s.inTable := setBestIf_inTable
  have hprev₁ : s₁.prev o = (chain A ++ before).getLast? := (congrFun setBestIf_prev o).trans hprev
  have hnext₁ : s₁.next o = (behind ++ chain B).head? := (congrFun setBestIf_next o).trans hnext
  have hlink : link s₁ (chain A ++ before).getLast? a (behind ++ chain B).head? = .ok s₂ :=
    link_eq (by rw [hlive₁]; exact hf.live) (by rw [hlive₁]; exact hPlive) (by rw [hlive₁]; exact hNlive) hneb
  have hjoin : joinTable s₂ a = .ok (s₂.join a) := by
    refine if_neg ?_
    rw [hinTable₂, hf.inTable]
    simp
  have hun : routeUnlock (s₂.join a) o = .ok ((s₂.join a).decLock o) := by
    refine if_pos ⟨?_, ?_⟩
    · rw [hlive₂]
      exact h.live o ho
    · rw [hlock₂]
      exact h.lock_pos o ho
  have hlk : routeLock ((s₂.join a).decLock o) a = .ok (((s₂.join a).decLock o).incLock a) := by
    refine if_pos ?_
    rw [(decLock_of_ne (Ne.symm hoa)).1, hlive₂]
    exact hf.live
  have hroute : (Routes.withNode s a).route = s.route := rfl
  have hassert : routeTableAssert (setFlag (((s₂.join a).decLock o).incLock a) a fun f => { f with change := true }) =
      .ok (replaced s b (chain A ++ before) before.isEmpty o a (behind ++ chain B)) :=
    hrep.toShape.routeTableAssert
  simp only [routeAdd, if_neg (routeAdd_fresh hf), hb, hplace, Except.map, placeOf, bind, Except.bind, hroute, hid,
    Bool.false_eq_true, if_false, hbest]
  simp only [show setBestIf before.isEmpty (Routes.withNode s a) b a = s₁ from rfl, hprev₁, hnext₁, hlink, hjoin, hun,
    hlk, hassert]
  rfl

/-- The state after a route has been put between others, with the flags as they then are. -/
def inserted (s : Rtable) (b : List Bool) (P : List Addr) (first : Bool) (a : Addr) (N : List Addr)
    (F : Addr → Flags) : Rtable :=
  { ((setBestIf first (linked (withNode s a) P.getLast? a N.head?) b a).join a).incLock a with
    count := s.count + 1
    flag := F }

theorem Rep.rep_inserted {M : List (List Bool × List Addr)} (h : Rep s none (A ++ (M ++ B))) (hf : Fresh s a)
    (hM : ∀ x ∈ M, x.1 = b) (hpw : (A.map Prod.fst ++ b :: B.map Prod.fst).Pairwise (· < ·))
    (hb : (s.route a).dest = b) (before behind : List Addr) (hg : chain M = before ++ behind)
    (hinfo : before ≠ [] → s.table.info b = before.head?) (F : Addr → Flags) :
    Rep (inserted s b (chain A ++ before) before.isEmpty a (behind ++ chain B) F) none
      (A ++ (group b (before ++ a :: behind) ++ B)) := by
  have ha := hf.not_mem h.toShape
  have hw := h.toShape.withNode ha
  have hchain : chain (A ++ (M ++ B)) = (chain A ++ before) ++ [] ++ (behind ++ chain B) := by simp [hg]
  have hnd : ((chain A ++ before) ++ a :: (behind ++ chain B)).Nodup := by
    rw [List.perm_middle.nodup_iff, List.nodup_cons]
    have hno := h.nodup
    rw [hchain, List.append_nil] at hno ha
    exact ⟨ha, hno⟩
  have hnd' : (chain A ++ ((before ++ a :: behind) ++ chain B)).Nodup := by simpa using hnd
  have hmem : ∀ c, c ∈ chain A ++ ((before ++ a :: behind) ++ chain B) ↔ c = a ∨ c ∈ chain (A ++ (M ++ B)) := by
    intro c
    rw [hchain]
    simp only [List.mem_append, List.mem_cons, List.not_mem_nil, or_false]
    tauto
  have hmemnode : b ∈ (Routes.withNode s a).table.top.nodes := hb ▸ routeNodeGet_mem
  have hposnode : 0 < (Routes.withNode s a).table.lock b := hb ▸ routeNodeGet_lock_pos
  have hlive : (inserted s b (chain A ++ before) before.isEmpty a (behind ++ chain B) F).live = s.live := setBestIf_live
  have hlock : (inserted s b (chain A ++ before) before.isEmpty a (behind ++ chain B) F).lock =
      Function.update s.lock a 1 := by
    simp [inserted, Rtable.incLock, Rtable.join, linked, withNode, hf.lock]
  have hinTable : (inserted s b (chain A ++ before) before.isEmpty a (behind ++ chain B) F).inTable =
      Function.update s.inTable a true := by
    simp [inserted, Rtable.incLock, Rtable.join, linked, withNode]
  have hrnode : (inserted s b (chain A ++ before) before.isEmpty a (behind ++ chain B) F).rnode =
      Function.update s.rnode a (some b) := by
    simp [inserted, Rtable.incLock, Rtable.join, linked, withNode, hb]
  have hroute : (inserted s b (chain A ++ before) before.isEmpty a (behind ++ chain B) F).route = s.route :=
    setBestIf_route
  refine ⟨?_, by simp, fun c hc => ?_⟩
  · refine hw.setGroup hM hpw hroute ?_ ?_ ?_ ?_ hnd' ?_ fun c hc => ?_
    · exact kept_setBestIf (s := linked (Routes.withNode s a) _ a _) hw.kept hmemnode hposnode
    · refine setBestIf_info (s := linked (Routes.withNode s a) _ a _) fun hne => ?_
      rw [← hinfo hne]
      exact congrFun h.kept.routeNodeGet_info b
    · intro c hc
      rw [List.perm_middle.mem_iff, List.mem_cons] at hc
      obtain rfl | hc := hc
      · exact hb
      · rw [← hg, mem_chain] at hc
        obtain ⟨x, hx, hcx⟩ := hc
        rw [← hM x hx]
        exact h.dest x (by simp [hx]) c hcx
    · have hput := Linked.put (l := []) (x := a) (hchain ▸ hw.linked) hnd
      rw [List.append_assoc] at hput
      simpa [inserted, Rtable.incLock, Rtable.join, linked] using hput
    · have hcount := h.count
      rw [hchain] at hcount
      simp only [inserted, hcount]
      simp
      omega
    · rw [hlive, hinTable, hlock, hrnode, hroute]
      obtain rfl | hc := (hmem c).mp hc
      · exact ⟨hf.live, by simp, by simp [hb], by simp⟩
      · have hca : c ≠ a := fun hca => ha (hca ▸ hc)
        simp only [Function.update_of_ne hca]
        exact ⟨h.live c hc, h.inTable c hc, h.rnode c hc, h.lock_pos c hc⟩
  · rw [hlive] at hc
    have hlc := h.lock c hc
    have hchain' : chain (A ++ (group b (before ++ a :: behind) ++ B)) =
        chain A ++ ((before ++ a :: behind) ++ chain B) := by simp
    rw [hlock, hchain']
    by_cases hca : c = a
    · subst hca
      rw [holders, if_pos ((hmem c).mpr (.inl rfl))]
      simp
    · rw [Function.update_of_ne hca, hlc]
      simp only [holders, hmem, hca, false_or]

/-- The flags after a route has been put between others. -/
def insertFlags (s : Rtable) (first : Bool) (a : Addr) (behind : Option Addr) : Addr → Flags :=
  let f := if first then updateAt s.flag behind { (s.flag (behind.getD a)) with best := false } else s.flag
  if first then Function.update f a { f a with best := true } else f

/-- A route with a prefix that is in the table, but with another origin. -/
theorem Rep.add_inserted (h : Rep s none (A ++ ([(b, g)] ++ B))) (hf : Fresh s a)
    (hpw : (A.map Prod.fst ++ b :: B.map Prod.fst).Pairwise (· < ·)) (hb : (s.route a).dest = b)
    {before behind : List Addr} (hg : groupSearch s.route (s.route a) g = .ok (before, none, behind)) :
    let s' := inserted s b (chain A ++ before) before.isEmpty a (behind ++ chain B)
      (insertFlags s before.isEmpty a (behind ++ chain B).head?)
    routeAdd s a = .ok (setFlag s' a fun f => { f with add := true }, a) ∧
      Rep (setFlag s' a fun f => { f with add := true }) none (A ++ (group b (before ++ a :: behind) ++ B)) := by
  have hgeq : g = before ++ behind := groupSearch_eq hg
  have hgne : g ≠ [] := h.nonempty (b, g) (by simp)
  have hMx : ∀ x ∈ [(b, g)], x.1 = b := by simp
  have hinfo : before ≠ [] → s.table.info b = before.head? := by
    intro hne
    rw [h.info (b, g) (by simp), hgeq, List.head?_append_of_ne_nil _ hne]
  have hrep := fun F => h.rep_inserted hf hMx hpw hb before behind (by simp [hgeq]) hinfo F
  refine ⟨?_, hrep _⟩
  have ha := hf.not_mem h.toShape
  have hw := h.toShape.withNode ha
  have hchain : chain (A ++ ([(b, g)] ++ B)) = (chain A ++ before) ++ [] ++ (behind ++ chain B) := by simp [hgeq]
  obtain ⟨hPlive, hNlive, hneb⟩ := h.toShape.live_around hchain ha
  have hplace := h.toShape.findPlace ha hpw hb
  rw [hg] at hplace
  have hlinked := h.linked
  rw [hchain, List.append_nil] at hlinked
  let s₀ := Routes.withNode s a
  -- the neighbours that the loop did not come to
  have hnot : before.getLast?.or none ≠ none ∨ (behind ++ chain B).head? ≠ none := by
    by_cases hbe : before = []
    · refine .inr ?_
      rw [hbe, List.nil_append] at hgeq
      simp [← hgeq, hgne]
    · exact .inl (by simpa using hbe)
  have hbefore : (if before.getLast?.or none = none then (behind ++ chain B).head?.bind s₀.prev
      else before.getLast?.or none) = (chain A ++ before).getLast? := by
    obtain rfl | ⟨l, c, rfl⟩ := List.eq_nil_or_concat before
    · obtain ⟨c, l, rfl⟩ := List.exists_cons_of_ne_nil (show behind ≠ [] from by rintro rfl; exact hgne hgeq)
      simp only [List.append_nil, List.cons_append] at hlinked
      simpa [s₀, withNode] using hlinked.neighbours.1
    · simp [List.getLast?_append]
  have hbehind : (if (behind ++ chain B).head? = none then (before.getLast?.or none).bind s₀.next
      else (behind ++ chain B).head?) = (behind ++ chain B).head? := by
    by_cases hbe : behind ++ chain B = []
    · rw [hbe, List.head?_nil, if_pos rfl]
      rw [hbe, List.append_nil] at hlinked
      obtain rfl | ⟨l, c, rfl⟩ := List.eq_nil_or_concat before
      · rfl
      · have hl : Linked s.next s.prev ((chain A ++ l) ++ c :: []) := by simpa using hlinked
        simpa [s₀, withNode] using hl.neighbours.2
    · rw [if_neg (by simpa using hbe)]
  let s₁ := linked s₀ (chain A ++ before).getLast? a (behind ++ chain B).head?
  have hlink : link s₀ (chain A ++ before).getLast? a (behind ++ chain B).head? = .ok s₁ :=
    link_eq hf.live hPlive hNlive hneb
  let F := insertFlags s before.isEmpty a (behind ++ chain B).head?
  let s₂ : Rtable := { setBestIf before.isEmpty s₁ b a with flag := F }
  have hbest : takeFirst s₁ b a (behind ++ chain B).head? = .ok s₂ := by
    have hinfo₁ : s₁.table.info b = g.head? := hw.info (b, g) (by simp)
    cases before with
    | nil =>
        obtain ⟨c, l, rfl⟩ := List.exists_cons_of_ne_nil (show behind ≠ [] from by rintro rfl; exact hgne hgeq)
        have hrn : s₁.rnode c = some b := by
          have hc : c ∈ chain (A ++ ([(b, g)] ++ B)) := by rw [hchain]; simp
          exact (hw.rnode c hc).trans (congrArg some (h.dest (b, g) (by simp) c (by simp [hgeq])))
        have hca : a ≠ c := fun hca => hneb (by simp [hca])
        simp only [takeFirst, List.cons_append, List.head?_cons, hinfo₁, hgeq, List.nil_append, if_true, hrn]
        simp [s₂, F, insertFlags, setBestIf, setBest, setFlag, s₁, linked, s₀, withNode, Function.update_of_ne hca]
    | cons d before =>
        have hs₂ : s₂ = s₁ := by simp [s₂, F, insertFlags, setBestIf, s₁, linked, s₀, withNode]
        rw [hgeq] at hinfo₁
        rw [hs₂]
        cases hN : (behind ++ chain B).head? with
        | none => simp [takeFirst, hinfo₁]
        | some c =>
            have hdc : d ≠ c := by
              rintro rfl
              have hno := h.nodup
              rw [hchain] at hno
              have hd : d ∈ behind ++ chain B := List.mem_of_mem_head? hN
              exact (List.nodup_append.mp hno).2.2 d (by simp) d hd rfl
            simp [takeFirst, hinfo₁, hdc]
  have hjoin : joinTable s₂ a = .ok (s₂.join a) := by
    refine if_neg ?_
    rw [show s₂.inTable = s.inTable from setBestIf_inTable, hf.inTable]
    simp
  have hlk : routeLock (s₂.join a) a = .ok ((s₂.join a).incLock a) := by
    refine if_pos ?_
    rw [show (s₂.join a).live = s.live from setBestIf_live]
    exact hf.live
  have hassert : routeTableAssert { (s₂.join a).incLock a with count := ((s₂.join a).incLock a).count + 1 } =
      .ok (inserted s b (chain A ++ before) before.isEmpty a (behind ++ chain B) F) := by
    have hs : { (s₂.join a).incLock a with count := ((s₂.join a).incLock a).count + 1 } =
        inserted s b (chain A ++ before) before.isEmpty a (behind ++ chain B) F := by
      simp [inserted, s₂, Rtable.join, Rtable.incLock, s₁, s₀, linked, withNode]
    rw [hs]
    exact (hrep F).toShape.routeTableAssert
  simp only [routeAdd, if_neg (routeAdd_fresh hf), hb, hplace, Except.map, placeOf, bind, Except.bind]
  rw [if_pos hnot]
  simp only [show Routes.withNode s a = s₀ from rfl, hbefore, hbehind, hlink]
  simp only [hbest, hjoin, hlk, hassert]
  rfl

/-- The loop to the last route of a group stops there. -/
theorem lastOfGroup_eq {u w : Option Addr} {c : Addr} {g : List Addr} {n : Nat} {p : List Bool}
    (hseg : Seg s.next s.prev u (c :: g) w) (hlive : ∀ d ∈ g, s.live d = true) (hg : ∀ d ∈ c :: g, (s.route d).dest = p)
    (hw : ∀ d ∈ w, s.live d = true ∧ (s.route d).dest ≠ p) (hn : g.length < n) :
    lastOfGroup s n c = .ok ((c :: g).getLast (by simp)) := by
  induction g generalizing u c n with
  | nil =>
      obtain ⟨n, rfl⟩ : ∃ m, n = m + 1 := ⟨n - 1, by omega⟩
      have hnext : s.next c = w := by simpa using hseg.2.1
      cases w with
      | none => simp [lastOfGroup, hnext]
      | some d =>
          obtain ⟨hl, hne⟩ := hw d rfl
          have hdc : isSame (s.route c) (s.route d) = false := by
            simpa [isSame, hg c (by simp)] using Ne.symm hne
          simp [lastOfGroup, hnext, hl, hdc]
  | cons d g ih =>
      obtain ⟨n, rfl⟩ : ∃ m, n = m + 1 := ⟨n - 1, by omega⟩
      have hnext : s.next c = some d := by simpa using hseg.2.1
      have hdc : isSame (s.route c) (s.route d) = true := by
        simp [isSame, hg c (by simp), hg d (by simp)]
      have hih := ih (n := n) hseg.2.2 (fun e he => hlive e (by simp [he])) (fun e he => hg e (by simp [he]))
        (by simpa using hn)
      simp [lastOfGroup, hnext, hlive d (by simp), hdc, hih]

/-- The groups before a place end with the last route before it. -/
theorem Shape.lastOf? (h : Shape s gs) {t : Rtable} {w : Option Addr} (hgs : gs = A ++ B)
    (hseg : Seg t.next t.prev none (chain A) w) (hroute : t.route = s.route) (hlive : t.live = s.live)
    (hcount : t.count = s.count) (hw : ∀ d ∈ w, s.live d = true ∧ ∀ x ∈ A, (s.route d).dest ≠ x.1) :
    lastOf? t (A.getLast?.bind fun x => x.2.head?) = .ok (chain A).getLast? := by
  obtain rfl | ⟨A', x, rfl⟩ := List.eq_nil_or_concat A
  · rfl
  · simp only [List.concat_eq_append] at hgs hseg hw ⊢
    have hx : x ∈ gs := by simp [hgs]
    obtain ⟨c, g, hxg⟩ := List.exists_cons_of_ne_nil (h.nonempty x hx)
    have hchain : chain (A' ++ [x]) = chain A' ++ (c :: g) := by simp [hxg]
    rw [hchain, seg_append] at hseg
    have hmem : ∀ d ∈ c :: g, d ∈ chain gs := fun d hd => mem_chain.mpr ⟨x, hx, hxg ▸ hd⟩
    have hlen : g.length < t.count + 1 := by
      rw [hcount, h.count, hgs, chain_append, hchain]
      simp
      omega
    have hlast := lastOfGroup_eq (p := x.1) hseg.2 (fun d hd => by rw [hlive]; exact h.live d (hmem d (by simp [hd])))
      (fun d hd => by rw [hroute]; exact h.dest x hx d (hxg ▸ hd))
      (fun d hd => by rw [hlive, hroute]; exact ⟨(hw d hd).1, (hw d hd).2 x (by simp)⟩) hlen
    have hlast' : (chain A' ++ c :: g).getLast? = some ((c :: g).getLast (by simp)) := by
      rw [List.getLast?_append_of_ne_nil _ (by simp), List.getLast?_eq_some_getLast (by simp)]
    rw [hchain, hlast']
    simp only [List.getLast?_concat, Option.bind_some, hxg, List.head?_cons, Routes.lastOf?, hlast, Except.map]

/-- A route with a new prefix. -/
theorem Rep.add_new (h : Rep s none (A ++ ([] ++ B))) (hf : Fresh s a) {xs ys : List (List Bool)}
    (hnodes : (routeNodeGet s.table b).top.nodes = xs ++ b :: ys)
    (hxs : (xs.filter fun c => (s.table.info c).isSome) = A.map Prod.fst)
    (hys : (ys.filter fun c => (s.table.info c).isSome) = B.map Prod.fst)
    (hpw : (A.map Prod.fst ++ b :: B.map Prod.fst).Pairwise (· < ·)) (hb : (s.route a).dest = b)
    (hnone : s.table.info b = none) :
    let s' := inserted s b (chain A) true a (chain B) (insertFlags s true a none)
    routeAdd s a = .ok (setFlag s' a fun f => { f with add := true }, a) ∧
      Rep (setFlag s' a fun f => { f with add := true }) none (A ++ (group b [a] ++ B)) := by
  have ha := hf.not_mem h.toShape
  have hrep := fun F => h.rep_inserted hf (M := []) (by simp) hpw hb [] [] (by simp) (by simp) F
  simp only [List.append_nil, List.nil_append, List.isEmpty_nil] at hrep
  refine ⟨?_, hrep _⟩
  have hchain : chain (A ++ ([] ++ B)) = chain A ++ chain B := by simp
  have hchain' : chain (A ++ ([] ++ B)) = chain A ++ [] ++ chain B := by simp
  obtain ⟨hPlive, hNlive, hneb⟩ := h.toShape.live_around hchain' ha
  have hnea : (chain A).getLast? ≠ some a := getLast?_ne_of_not_mem fun hm => ha (by rw [hchain]; simp [hm])
  let s₀ := Routes.withNode s a
  let s₁ := ((setBest s₀ b a).incLock a).join a
  have hkept₁ : Kept s₁.table := (hrep (insertFlags s true a none)).kept
  have hinfo₁ : s₁.table.info = Function.update s.table.info b (some a) := by
    have hw : s₀.table.info = s.table.info := h.kept.routeNodeGet_info
    simp [s₁, Rtable.join, Rtable.incLock, setBest, setFlag, RouteTable.setInfo, hw]
  have hnodes₁ : s₁.table.top.nodes = xs ++ b :: ys := by
    rw [← hnodes, ← hb]
    rfl
  have hget := (h.kept.routeNodeGet b).stored_setInfo (i := some a) hnodes
  rw [h.kept.routeNodeGet_info] at hget
  have hxs₁ : (xs.filter fun c => (s₁.table.info c).isSome) = A.map Prod.fst := by
    rw [hinfo₁, ← hxs, ← hget.1]
    simp [RouteTable.setInfo, h.kept.routeNodeGet_info]
  have hys₁ : (ys.filter fun c => (s₁.table.info c).isSome) = B.map Prod.fst := by
    rw [hinfo₁, ← hys, ← hget.2]
    simp [RouteTable.setInfo, h.kept.routeNodeGet_info]
  obtain ⟨hneA, hneB⟩ := ne_of_pairwise hpw
  -- the first route behind
  have hnext : nextInfo s₁.table.top.nodes.length (routeLockNode s₁.table b) b =
      some (s₁.table.lockNode? (B.head?.map Prod.fst), B.head?.map Prod.fst) := by
    have hlen : ys.length < s₁.table.top.nodes.length := by
      rw [hnodes₁, List.length_append, List.length_cons]
      omega
    rw [hkept₁.nextInfo hlen hnodes₁, ← List.head?_filter, hys₁, List.head?_map]
  have htakeN : takeInfo s₁ (s₁.table.lockNode? (B.head?.map Prod.fst), B.head?.map Prod.fst) =
      .ok (s₁, (chain B).head?) := by
    have hmem : ∀ p ∈ B.head?.map Prod.fst, p ∈ s₁.table.top.nodes := by
      intro p hp
      refine hkept₁.mem_of_info ?_
      obtain ⟨x, hx, rfl⟩ := Option.map_eq_some_iff.mp hp
      have hx := List.mem_of_mem_head? hx
      rw [hinfo₁, Function.update_of_ne (hneB x hx), h.info x (by simp [hx])]
      simpa using h.nonempty x (by simp [hx])
    rw [takeInfo_eq hkept₁ hmem]
    cases hB : B with
    | nil => rfl
    | cons x B' =>
        have hx : x ∈ B := by simp [hB]
        have hxi : s₁.table.info x.1 = x.2.head? := by
          rw [hinfo₁, Function.update_of_ne (hneB x hx), h.info x (by simp [hx])]
        simp only [List.head?_cons, Option.map_some, Option.bind_some, hxi, chain_cons]
        rw [List.head?_append_of_ne_nil _ (h.nonempty x (by simp [hx]))]
  let s₂ : Rtable := { s₁ with
    next := Function.update s.next a (chain B).head?
    prev := updateAt s.prev (chain B).head? (some a) }
  have hself : ∀ c ∈ some a, s.live c = true := by simpa using hf.live
  have hstep₁ : setNext s₁ (some a) (chain B).head? =
      .ok { s₁ with next := Function.update s.next a (chain B).head? } := if_pos hself
  have hstep₂ : setPrev { s₁ with next := Function.update s.next a (chain B).head? } (chain B).head? (some a) =
      .ok s₂ := if_pos hNlive
  -- the last route before
  have hprev : prevInfo s₂.table.top.nodes.length (routeLockNode s₂.table b) b =
      some (s₂.table.lockNode? (A.getLast?.map Prod.fst), A.getLast?.map Prod.fst) := by
    have hlen : xs.length < s₁.table.top.nodes.length := by
      rw [hnodes₁, List.length_append, List.length_cons]
      omega
    refine (hkept₁.prevInfo hlen hnodes₁).trans ?_
    rw [← List.head?_filter, List.filter_reverse, List.head?_reverse, hxs₁, List.getLast?_map]
  have htakeP : takeInfo s₂ (s₂.table.lockNode? (A.getLast?.map Prod.fst), A.getLast?.map Prod.fst) =
      .ok (s₂, A.getLast?.bind fun x => x.2.head?) := by
    have hmem : ∀ p ∈ A.getLast?.map Prod.fst, p ∈ s₂.table.top.nodes := by
      intro p hp
      refine hkept₁.mem_of_info ?_
      obtain ⟨x, hx, rfl⟩ := Option.map_eq_some_iff.mp hp
      have hx := List.mem_of_getLast? hx
      rw [hinfo₁, Function.update_of_ne (hneA x hx), h.info x (by simp [hx])]
      simpa using h.nonempty x (by simp [hx])
    rw [takeInfo_eq (s := s₂) hkept₁ hmem]
    cases hA : A.getLast? with
    | none => rfl
    | some x =>
        have hx := List.mem_of_getLast? hA
        have hxi : s₂.table.info x.1 = x.2.head? := by
          refine (congrFun hinfo₁ x.1).trans ?_
          rw [Function.update_of_ne (hneA x hx), h.info x (by simp [hx])]
        simp [hxi]
  have hlast : Routes.lastOf? s₂ (A.getLast?.bind fun x => x.2.head?) = .ok (chain A).getLast? := by
    refine h.toShape.lastOf? (t := s₂) (w := (chain B).head?) rfl ?_ rfl rfl rfl fun d hd => ⟨hNlive d hd, ?_⟩
    · have hseg := h.linked
      rw [hchain, Linked, seg_append] at hseg
      refine Seg.congr (by simpa using hseg.1) (fun c hc => ?_) fun c hc => ?_
      · have hca : c ≠ a := fun hca => ha (by rw [hchain]; simp [← hca, hc])
        exact Function.update_of_ne hca _ _
      · refine updateAt_of_ne (head?_ne_of_not_mem fun hcB => ?_)
        have hno := h.nodup
        rw [hchain] at hno
        exact (List.nodup_append.mp hno).2.2 c hc c hcB rfl
    · intro x hx
      obtain ⟨y, hy, hdy⟩ := mem_chain.mp (List.mem_of_mem_head? hd)
      rw [h.dest y (by simp [hy]) d hdy]
      have hsorted := h.kept.stored_pairwise
      rw [h.stored, List.nil_append, List.map_append, List.pairwise_append] at hsorted
      exact ne_of_gt (hsorted.2.2 x.1 (List.mem_map_of_mem hx) y.1 (List.mem_map_of_mem hy))
  let s₃ : Rtable := { s₂ with prev := Function.update (updateAt s.prev (chain B).head? (some a)) a (chain A).getLast? }
  have hstep₃ : setPrev s₂ (some a) (chain A).getLast? = .ok s₃ := if_pos hself
  have hstep₄ : setNext s₃ (chain A).getLast? (some a) =
      .ok { s₃ with next := updateAt (Function.update s.next a (chain B).head?) (chain A).getLast? (some a) } :=
    if_pos hPlive
  have hfinal : { s₃ with
      next := updateAt (Function.update s.next a (chain B).head?) (chain A).getLast? (some a)
      count := s₃.count + 1 } = inserted s b (chain A) true a (chain B) (insertFlags s true a none) := by
    rw [updateAt_update_comm hnea]
    simp [inserted, s₃, s₂, s₁, s₀, insertFlags, setBestIf, setBest, setFlag, linked, Rtable.join, Rtable.incLock,
      withNode]
  have hassert := (hrep (insertFlags s true a none)).toShape.routeTableAssert
  have hinfo₀ : s₀.table.info b = none := (congrFun h.kept.routeNodeGet_info b).trans hnone
  have hplace : Routes.findPlace s₀ a s₀.count none (s₀.table.info b) = .ok (.gap none none) := by
    rw [hinfo₀]
    cases s₀.count <;> rfl
  have hlk : routeLock (setBest s₀ b a) a = .ok ((setBest s₀ b a).incLock a) := if_pos hf.live
  have hjoin : joinTable ((setBest s₀ b a).incLock a) a = .ok s₁ := by
    refine if_neg ?_
    rw [show ((setBest s₀ b a).incLock a).inTable = s.inTable from rfl, hf.inTable]
    simp
  have hor : ¬ ((none : Option Addr) ≠ none ∨ (none : Option Addr) ≠ none) := by simp
  simp only [routeAdd, if_neg (routeAdd_fresh hf), hb, show Routes.withNode s a = s₀ from rfl, hplace, bind, Except.bind]
  rw [if_neg hor, if_neg (by simp [hinfo₀])]
  simp only [hlk, hjoin, hnext, need, htakeN, hstep₁, hstep₂, hprev, htakeP, hlast, hstep₃, hstep₄]
  rw [hfinal, hassert]
  rfl

/-- The flags of a route but for the one of the first route of a group. -/
def Flags.sansBest (f : Flags) : Flags :=
  { f with best := false }

/-- What the addition of the route `a` does to the group of its prefix, and which route then stands for it. -/
structure Added (s : Rtable) (gs : List (List Bool × List Addr)) (a : Addr) (before : List Addr) (old : Option Addr)
    (behind : List Addr) (s' : Rtable) (r : Addr) (gs' : List (List Bool × List Addr)) : Prop where
  rep : Rep s' none gs'
  route : s'.route = s.route
  others : ∀ p, p ≠ (s.route a).dest → groupAt gs' p = groupAt gs p
  flag : ∀ c, c ≠ r → (s'.flag c).sansBest = (s.flag c).sansBest
  live : ∀ c, s'.live c = true → s.live c = true
  /-- A route that says the same stays. -/
  same : ∀ o, old = some o → isIdentical (s.route o) (s.route a) = true →
    r = o ∧ groupAt gs' (s.route a).dest = groupAt gs (s.route a).dest ∧
      (s'.flag r).sansBest = { (s.flag r).sansBest with add := true }
  /-- One of the same origin that says something else is replaced. -/
  changed : ∀ o, old = some o → isIdentical (s.route o) (s.route a) = false →
    r = a ∧ groupAt gs' (s.route a).dest = before ++ a :: behind ∧
      (s'.flag r).sansBest = { (s.flag r).sansBest with change := true }
  new : old = none → r = a ∧ groupAt gs' (s.route a).dest = before ++ a :: behind ∧
      (s'.flag r).sansBest = { (s.flag r).sansBest with add := true }

theorem sansBest_add {f f' : Flags} (h : f'.sansBest = f.sansBest) :
    ({ f' with add := true } : Flags).sansBest = { f.sansBest with add := true } := by
  simp only [Flags.sansBest, Flags.mk.injEq] at h ⊢
  exact ⟨h.1, trivial, h.2.2⟩

theorem sansBest_change {f f' : Flags} (h : f'.sansBest = f.sansBest) :
    ({ f' with change := true } : Flags).sansBest = { f.sansBest with change := true } := by
  simp only [Flags.sansBest, Flags.mk.injEq] at h ⊢
  exact ⟨trivial, h.2⟩

theorem insertFlags_sansBest (first : Bool) {n : Option Addr} (hn : n ≠ some a) (c : Addr) :
    (insertFlags s first a n c).sansBest = (s.flag c).sansBest := by
  cases first with
  | false => rfl
  | true =>
      cases n with
      | none =>
          by_cases hca : c = a
          · subst hca
            simp [insertFlags, Flags.sansBest]
          · simp [insertFlags, Function.update_of_ne hca]
      | some d =>
          have had : a ≠ d := fun had => hn (had ▸ rfl)
          by_cases hca : c = a
          · subst hca
            simp [insertFlags, Flags.sansBest, Function.update_of_ne had]
          · by_cases hcd : c = d
            · subst hcd
              simp [insertFlags, Flags.sansBest, Function.update_of_ne hca]
            · simp [insertFlags, Function.update_of_ne hca, Function.update_of_ne hcd]

theorem setFlag_best {F : Flags → Flags} (hF : ∀ f, (F f).best = f.best) (c : Addr) :
    ((setFlag s a F).flag c).best = (s.flag c).best := by
  by_cases hca : c = a
  · subst hca
    simp [setFlag, hF]
  · simp [setFlag, Function.update_of_ne hca]

theorem setBestIf_best (first : Bool) (b : List Bool) (c : Addr) :
    ((setBestIf first s b a).flag c).best = if c = a then first || (s.flag a).best else (s.flag c).best := by
  by_cases hca : c = a
  · subst hca
    cases first <;> simp [setBestIf, setBest, setFlag]
  · cases first <;> simp [setBestIf, setBest, setFlag, hca]

/-- Which routes are marked as the best after a search in their group: the new one if nothing comes before it, and then
the one that it comes before no more. -/
def bestAfter (best : Addr → Bool) (a : Addr) (before : List Addr) (old : Option Addr) (behind : List Addr)
    (c : Addr) : Bool :=
  if c = a then before.isEmpty || best a
  else if before = [] ∧ old = none ∧ behind.head? = some c then false
  else best c

theorem insertFlags_best {before behind : List Addr} (N : List Addr) (hne : (behind ++ N).head? ≠ some a)
    (hbehind : before = [] → behind ≠ []) (c : Addr) :
    (insertFlags s before.isEmpty a (behind ++ N).head? c).best =
      bestAfter (fun c => (s.flag c).best) a before none behind c := by
  cases before with
  | cons d before =>
      by_cases hca : c = a <;> simp [insertFlags, bestAfter, hca]
  | nil =>
      obtain ⟨d, behind, rfl⟩ := List.exists_cons_of_ne_nil (hbehind rfl)
      by_cases hca : c = a
      · subst hca
        simp [insertFlags, bestAfter]
      · by_cases hcd : c = d
        · subst hcd
          simp [insertFlags, bestAfter, hca]
        · simp [insertFlags, bestAfter, Function.update_of_ne hcd, hca, Ne.symm hcd]

/-- `ospf6_route_add` changes the group of the prefix of a route as the search in the group says; it fails only where
the search does, in `ospf6_route_cmp`. -/
theorem Rep.add_best (h : Rep s none gs) (hf : Fresh s a) :
    (∀ e, groupSearch s.route (s.route a) (groupAt gs (s.route a).dest) = .error e → routeAdd s a = .error e) ∧
    ∀ before old behind,
      groupSearch s.route (s.route a) (groupAt gs (s.route a).dest) = .ok (before, old, behind) →
      ∃ s' r gs', routeAdd s a = .ok (s', r) ∧ Added s gs a before old behind s' r gs' ∧
        ∀ c, (s'.flag c).best = if r = a then bestAfter (fun c => (s.flag c).best) a before old behind c
          else (s.flag c).best := by
  have ha := hf.not_mem h.toShape
  obtain ⟨xs, ys, A, M, B, hnodes, rfl, hxs, hys, hpw, ⟨rfl, hnone⟩ | ⟨g, rfl, hgne, hinfo⟩⟩ :=
    h.toShape.place (s.route a).dest
  · obtain ⟨hneA, hneB⟩ := ne_of_pairwise hpw
    have hat : groupAt (A ++ ([] ++ B)) (s.route a).dest = [] := by
      simpa [group] using groupAt_self (g := []) hneA hneB
    rw [hat]
    refine ⟨fun e he => by simp [groupSearch] at he, fun before old behind hs => ?_⟩
    simp only [groupSearch, Except.ok.injEq, Prod.mk.injEq] at hs
    obtain ⟨rfl, rfl, rfl⟩ := hs
    obtain ⟨hadd, hrep⟩ := h.add_new hf hnodes hxs hys hpw rfl hnone
    have hflag : ∀ c, (insertFlags s true a none c).sansBest = (s.flag c).sansBest := insertFlags_sansBest true (by simp)
    refine ⟨_, _, _, hadd, ⟨hrep, setBestIf_route, fun p hp => ?_, fun c hc => ?_, fun c hc => hc, by simp, by simp,
      fun _ => ⟨rfl, ?_, ?_⟩⟩, fun c => ?_⟩
    · exact groupAt_of_ne (by simp) (by simp [mem_group]) hp
    · simpa [setFlag, inserted, Function.update_of_ne hc] using hflag c
    · exact groupAt_self hneA hneB
    · simp only [setFlag, inserted, Function.update_self]
      exact sansBest_add (hflag a)
    · rw [if_pos rfl]
      refine (setFlag_best (fun _ => ?_) c).trans ?_
      · rfl
      · by_cases hca : c = a
        · subst hca
          simp [inserted, insertFlags, bestAfter]
        · simp [inserted, insertFlags, bestAfter, hca]
  · obtain ⟨hneA, hneB⟩ := ne_of_pairwise hpw
    have hgroup : group (s.route a).dest g = [((s.route a).dest, g)] := by simp [group, hgne]
    have hat : groupAt (A ++ ([((s.route a).dest, g)] ++ B)) (s.route a).dest = g := by
      rw [← hgroup]
      exact groupAt_self hneA hneB
    rw [hat]
    have hM : ∀ x ∈ [((s.route a).dest, g)], x.1 = (s.route a).dest := by simp
    constructor
    · intro e he
      have hplace := h.toShape.findPlace ha hpw rfl
      rw [he] at hplace
      simp only [routeAdd, if_neg (routeAdd_fresh hf), hplace, Except.map, bind, Except.bind]
    · rintro before (_ | o) behind hs
      · obtain ⟨hadd, hrep⟩ := h.add_inserted hf hpw rfl hs
        have hchain : chain (A ++ ([((s.route a).dest, g)] ++ B)) = (chain A ++ before) ++ [] ++ (behind ++ chain B) := by
          simp [groupSearch_eq hs]
        obtain ⟨-, -, hneb⟩ := h.toShape.live_around hchain ha
        have hflag := fun c => insertFlags_sansBest (s := s) before.isEmpty hneb c
        refine ⟨_, _, _, hadd, ⟨hrep, setBestIf_route, fun p hp => ?_, fun c hc => ?_, fun c hc => ?_, by simp, by simp,
          fun _ => ⟨rfl, ?_, ?_⟩⟩, fun c => ?_⟩
        · exact groupAt_of_ne hM (by simp [mem_group]) hp
        · simpa [setFlag, inserted, Function.update_of_ne hc] using hflag c
        · have hlive : (inserted s (s.route a).dest (chain A ++ before) before.isEmpty a (behind ++ chain B)
              (insertFlags s before.isEmpty a (behind ++ chain B).head?)).live = s.live := setBestIf_live
          rw [← hlive]
          exact hc
        · exact groupAt_self hneA hneB
        · simp only [setFlag, inserted, Function.update_self]
          exact sansBest_add (hflag a)
        · rw [if_pos rfl]
          refine (setFlag_best (fun _ => ?_) c).trans (insertFlags_best (chain B) hneb (fun hbe => ?_) c)
          · rfl
          · rintro rfl
            rw [hbe] at hs
            exact hgne (groupSearch_eq hs)
      · by_cases hid : isIdentical (s.route o) (s.route a) = true
        · obtain ⟨hadd, hrep⟩ := h.add_identical hf hpw rfl hs hid
          have hoa : o ≠ a := by
            rintro rfl
            have hog : o ∈ g := by simp [groupSearch_eq hs]
            exact ha (mem_chain.mpr ⟨((s.route o).dest, g), by simp, hog⟩)
          refine ⟨_, _, _, hadd, ⟨hrep, rfl, fun p hp => rfl, fun c hc => ?_, fun c hc => ?_, ?_, ?_, by simp⟩,
            fun c => ?_⟩
          · simp [setFlag, routeDelete, withNode, Function.update_of_ne hc]
          · by_cases hca : c = a
            · subst hca
              exact hf.live
            · simpa [setFlag, routeDelete, withNode, Function.update_of_ne hca] using hc
          · rintro o' ho' -
            obtain rfl := Option.some.inj ho'
            refine ⟨rfl, rfl, ?_⟩
            simp only [setFlag, routeDelete, withNode, Function.update_self]
            exact sansBest_add rfl
          · intro o' ho' hne
            obtain rfl := Option.some.inj ho'
            rw [hid] at hne
            exact absurd hne (by simp)
          · rw [if_neg hoa]
            refine (setFlag_best (fun _ => ?_) c).trans rfl
            rfl
        · obtain ⟨hadd, hrep⟩ := h.add_replaced hf hpw rfl hs (by simpa using hid)
          have hflag : ∀ c, c ≠ a →
              (setBestIf before.isEmpty (Routes.withNode s a) (s.route a).dest a).flag c = s.flag c := by
            intro c hc
            cases before.isEmpty with
            | false => rfl
            | true => exact Function.update_of_ne hc _ _
          have hflaga : ((setBestIf before.isEmpty (Routes.withNode s a) (s.route a).dest a).flag a).sansBest =
              (s.flag a).sansBest := by
            cases before.isEmpty with
            | false => rfl
            | true => simp [setBestIf, setBest, setFlag, withNode, Flags.sansBest]
          refine ⟨_, _, _, hadd, ⟨hrep, setBestIf_route, fun p hp => ?_, fun c hc => ?_, fun c hc => ?_, ?_, ?_, by simp⟩,
            fun c => ?_⟩
          · exact groupAt_of_ne hM (by simp [mem_group]) hp
          · have hc' : (Routes.replaced s (s.route a).dest (chain A ++ before) before.isEmpty o a
                (behind ++ chain B)).flag c = s.flag c := by
              refine Eq.trans ?_ (hflag c hc)
              exact Function.update_of_ne hc _ _
            rw [hc']
          · have hlive : ((linked (setBestIf before.isEmpty (Routes.withNode s a) (s.route a).dest a)
                (chain A ++ before).getLast? a (behind ++ chain B).head?).join a).live = s.live := setBestIf_live
            rw [← hlive]
            exact live_of_decLock hc
          · intro o' ho' hyes
            obtain rfl := Option.some.inj ho'
            exact absurd hyes hid
          · rintro o' ho' -
            obtain rfl := Option.some.inj ho'
            refine ⟨rfl, groupAt_self hneA hneB, ?_⟩
            simp only [Routes.replaced, setFlag, Function.update_self]
            exact sansBest_change hflaga
          · rw [if_pos rfl]
            refine (setFlag_best (fun _ => ?_) c).trans ((setBestIf_best _ _ c).trans ?_)
            · rfl
            · simp [bestAfter, withNode]

theorem Rep.add (h : Rep s none gs) (hf : Fresh s a) :
    (∀ e, groupSearch s.route (s.route a) (groupAt gs (s.route a).dest) = .error e → routeAdd s a = .error e) ∧
    ∀ before old behind,
      groupSearch s.route (s.route a) (groupAt gs (s.route a).dest) = .ok (before, old, behind) →
      ∃ s' r gs', routeAdd s a = .ok (s', r) ∧ Added s gs a before old behind s' r gs' := by
  refine ⟨(h.add_best hf).1, fun before old behind hs => ?_⟩
  obtain ⟨s', r, gs', hadd, hadded, -⟩ := (h.add_best hf).2 before old behind hs
  exact ⟨s', r, gs', hadd, hadded⟩

end Add

/-! ### Removal -/

section Remove

variable {s : Rtable} {gs A B : List (List Bool × List Addr)} {cur : Option Addr} {a : Addr} {b : List Bool}
  {before behind : List Addr}

/-- The loop in `ospf6_route_remove` comes to the route. -/
theorem findRoute_eq {u w : Option Addr} {g : List Addr} {n : Nat} (hseg : Seg s.next s.prev u (g ++ a :: behind) w)
    (hna : a ∉ g) (hlive : ∀ c ∈ g ++ a :: behind, s.live c = true)
    (hdest : ∀ c ∈ g ++ a :: behind, (s.route c).dest = (s.route a).dest) (hn : (g ++ a :: behind).length ≤ n) :
    findRoute s a n (g ++ a :: behind).head? = .ok () := by
  induction g generalizing u n with
  | nil =>
      obtain ⟨n, rfl⟩ : ∃ m, n = m + 1 := ⟨n - 1, by simp at hn; omega⟩
      simp [findRoute, hlive a (by simp), isSame]
  | cons c g ih =>
      obtain ⟨n, rfl⟩ : ∃ m, n = m + 1 := ⟨n - 1, by simp at hn; omega⟩
      have hca : c ≠ a := fun hca => hna (by simp [hca])
      have hnext : s.next c = (g ++ a :: behind).head? := by
        have hnext := hseg.2.1
        cases g <;> simpa using hnext
      have hih := ih (n := n) hseg.2.2 (fun hm => hna (by simp [hm]))
        (fun d hd => hlive d (by simp only [List.cons_append, List.mem_cons]; exact .inr hd))
        (fun d hd => hdest d (by simp only [List.cons_append, List.mem_cons]; exact .inr hd)) (by simpa using hn)
      rw [List.cons_append, List.head?_cons, findRoute, if_pos, if_neg hca, hnext, hih]
      exact ⟨hlive c (by simp), by simpa [isSame] using hdest c (by simp)⟩

/-- What is left on the node of a group without one of its routes. -/
theorem dropFirst_info (hinfo : s.table.info b = (before ++ a :: behind).head?) (hna : a ∉ before)
    (hnext : s.next a = behind.head?.or (chain B).head?) (hbehind : ∀ c ∈ behind, (s.route c).dest = (s.route a).dest)
    (hB : ∀ c ∈ (chain B).head?, (s.route c).dest ≠ (s.route a).dest) :
    (dropFirst s b a).table = if before = [] then s.table.setInfo b behind.head? else s.table := by
  cases before with
  | nil =>
      rw [List.nil_append, List.head?_cons] at hinfo
      rw [dropFirst, if_pos hinfo, if_pos rfl]
      cases behind with
      | nil =>
          rw [List.head?_nil, Option.none_or] at hnext
          rw [hnext]
          cases hc : (chain B).head? with
          | none => rfl
          | some c =>
              have hne : isSame (s.route c) (s.route a) = false := by simpa [isSame] using hB c hc
              simp [hne]
      | cons c behind =>
          have hsame : isSame (s.route c) (s.route a) = true := by simpa [isSame] using hbehind c (by simp)
          rw [hnext]
          simp only [List.head?_cons, Option.some_or, hsame, if_true]
          rfl
  | cons d before =>
      have hda : d ≠ a := fun hda => hna (by simp [hda])
      rw [dropFirst, if_neg (by simpa [hinfo] using hda), if_neg (by simp)]

/-- A group that loses its first route changes what hangs on its node, and nothing but the flag for the first route. -/
theorem dropFirst_frame : (dropFirst s b a).route = s.route ∧ (dropFirst s b a).next = s.next ∧
    (dropFirst s b a).prev = s.prev ∧ (dropFirst s b a).lock = s.lock ∧ (dropFirst s b a).rnode = s.rnode ∧
    (dropFirst s b a).inTable = s.inTable ∧ (dropFirst s b a).live = s.live ∧ (dropFirst s b a).count = s.count ∧
    ∀ c, ((dropFirst s b a).flag c).sansBest = (s.flag c).sansBest := by
  rw [dropFirst]
  split
  · split
    · exact ⟨rfl, rfl, rfl, rfl, rfl, rfl, rfl, rfl, fun _ => rfl⟩
    · split
      · next d _ _ =>
          refine ⟨rfl, rfl, rfl, rfl, rfl, rfl, rfl, rfl, fun c => ?_⟩
          by_cases hcd : c = d
          · subst hcd
            simp [setBest, setFlag, Flags.sansBest]
          · simp [setBest, setFlag, Function.update_of_ne hcd]
      · exact ⟨rfl, rfl, rfl, rfl, rfl, rfl, rfl, rfl, fun _ => rfl⟩
  · exact ⟨rfl, rfl, rfl, rfl, rfl, rfl, rfl, rfl, fun _ => rfl⟩

/-- The flags depend on what hangs on the node and on the route behind. -/
theorem dropFirst_flag {t : Rtable} (hroute : t.route = s.route) (hnext : t.next a = s.next a)
    (hinfo : t.table.info b = s.table.info b) (hflag : t.flag = s.flag) :
    (dropFirst t b a).flag = (dropFirst s b a).flag := by
  simp only [dropFirst, hinfo, hnext, hroute]
  split
  · split
    · exact hflag
    · split
      · simp only [setBest, setFlag, hflag]
      · exact hflag
  · exact hflag

/-- `ospf6_route_remove` takes a route out of its group. A loop that stands at the route finds the way on. -/
theorem Rep.remove_best {as bs : List Addr} (h : Rep s cur gs) (hgs : chain gs = as ++ a :: bs) :
    ∃ s' gs', routeRemove s a = .ok s' ∧ Rep s' cur gs' ∧ chain gs' = as ++ bs ∧ s'.next a = s.next a ∧
      s'.route = s.route ∧ (∀ c, c ≠ a → (s'.flag c).sansBest = (s.flag c).sansBest) ∧
      (∀ c, s'.live c = true → s.live c = true) ∧
      ∀ c, c ≠ a → (s'.flag c).best = ((dropFirst s (s.route a).dest a).flag c).best := by
  have ha : a ∈ chain gs := by simp [hgs]
  obtain ⟨x, hx, hax⟩ := mem_chain.mp ha
  obtain ⟨b, g⟩ := x
  obtain ⟨A, B, rfl⟩ := List.append_of_mem hx
  obtain ⟨before, behind, rfl⟩ := List.append_of_mem hax
  have hb : (s.route a).dest = b := h.dest _ hx a hax
  have hchain : chain (A ++ (b, before ++ a :: behind) :: B) = (chain A ++ before) ++ a :: (behind ++ chain B) := by
    simp
  have hnd := h.nodup
  have hna : a ∉ (chain A ++ before) ++ (behind ++ chain B) := by
    rw [hchain, List.perm_middle.nodup_iff] at hnd
    exact (List.nodup_cons.mp hnd).1
  obtain ⟨rfl, rfl⟩ : as = chain A ++ before ∧ bs = behind ++ chain B := by
    have heq : (chain A ++ before) ++ a :: (behind ++ chain B) = as ++ a :: bs := hchain.symm.trans hgs
    have hinj := (List.append_cons_inj_of_notMem (fun hm => hna (List.mem_append_left _ hm))
      (fun hm => hna (List.mem_append_right _ hm))).mp heq
    exact ⟨hinj.1.symm, hinj.2.2.symm⟩
  have hlinked := h.linked
  rw [hchain] at hnd hlinked
  obtain ⟨hprev, hnext⟩ := hlinked.neighbours
  have hmem : ∀ c, c ∈ (chain A ++ before) ++ (behind ++ chain B) →
      c ∈ chain (A ++ (b, before ++ a :: behind) :: B) := by
    intro c hc
    rw [hchain, List.perm_middle.mem_iff]
    exact List.mem_cons_of_mem _ hc
  have hlive := h.live a ha
  have hinfo : s.table.info b = (before ++ a :: behind).head? := h.info _ hx
  have hne : s.table.info b ≠ none := by simp [hinfo]
  have hpw : (A.map Prod.fst ++ b :: B.map Prod.fst).Pairwise (· < ·) := by
    have hpw := h.kept.stored_pairwise
    rw [h.stored] at hpw
    simpa using hpw
  have hlook : routeNodeLookup s.table b = (routeLockNode s.table b, some b) := by
    rw [h.kept.routeNodeLookup, if_neg hne]
  -- the loop, in the table with the lock of the lookup
  have hfind : findRoute { s with table := routeLockNode s.table b } a s.count (s.table.info b) = .ok () := by
    have hseg := h.linked
    have hsplit : chain (A ++ (b, before ++ a :: behind) :: B) = chain A ++ ((before ++ a :: behind) ++ chain B) := by
      simp
    rw [hsplit, Linked, seg_append, seg_append] at hseg
    rw [hinfo]
    refine findRoute_eq (s := { s with table := routeLockNode s.table b }) hseg.2.1 (fun hm => hna (by simp [hm]))
      (fun c hc => h.live c (mem_chain.mpr ⟨_, hx, hc⟩)) (fun c hc => (h.dest _ hx c hc).trans hb.symm) ?_
    rw [h.count, hchain]
    simp
    omega
  have hpl : ∀ c ∈ (chain A ++ before).getLast?, s.live c = true := fun c hc =>
    h.live c (hmem c (by simp only [List.mem_append]; exact .inl (by simpa using List.mem_of_getLast? hc)))
  have hnl : ∀ c ∈ (behind ++ chain B).head?, s.live c = true := fun c hc =>
    h.live c (hmem c (List.mem_append_right _ (List.mem_of_mem_head? hc)))
  have hnext' : updateAt s.next (chain A ++ before).getLast? (behind ++ chain B).head? a = (behind ++ chain B).head? := by
    rw [← hnext]
    exact updateAt_of_ne (getLast?_ne_of_not_mem fun hm => hna (List.mem_append_left _ hm))
  let s₁ : Rtable := { s with
    table := routeLockNode s.table b
    next := updateAt s.next (chain A ++ before).getLast? (behind ++ chain B).head?
    prev := updateAt s.prev (behind ++ chain B).head? (chain A ++ before).getLast? }
  have htable : (dropFirst s₁ b a).table =
      if before = [] then (routeLockNode s.table b).setInfo b behind.head? else routeLockNode s.table b := by
    refine dropFirst_info (s := s₁) (B := B) hinfo (fun hm => hna (by simp [hm])) ?_ (fun c hc => ?_) fun c hc => ?_
    · exact hnext'.trans (by rw [List.head?_append])
    · exact (h.dest _ hx c (by simp [hc])).trans hb.symm
    · rw [show (s₁.route a).dest = b from hb]
      exact Shape.dest_behind (s := s) (M := [(b, before ++ a :: behind)]) (by simpa using h.toShape) hpw c hc
  obtain ⟨hroute₂, hnext₂, hprev₂, hlock₂, hrnode₂, hinTable₂, hlive₂, hcount₂, hflag₂⟩ :=
    dropFirst_frame (s := s₁) (a := a) (b := b)
  let s₂ : Rtable := { dropFirst s₁ b a with count := (dropFirst s₁ b a).count - 1 }
  have hmemb := h.kept.mem_of_info hne
  have hkept : Kept s₂.table := by
    rw [show s₂.table = _ from htable]
    split
    · exact (h.kept.lock b).setInfo hmemb (by simp [routeLockNode])
    · exact h.kept.lock b
  have hinfo₂ : s₂.table.info = Function.update s.table.info b (before ++ behind).head? := by
    rw [show s₂.table = _ from htable]
    by_cases hbe : before = []
    · simp [hbe, RouteTable.setInfo, routeLockNode]
    · have hhead : (before ++ behind).head? = s.table.info b := by
        rw [hinfo, List.head?_append_of_ne_nil _ hbe, List.head?_append_of_ne_nil _ hbe]
      rw [if_neg hbe, hhead, Function.update_eq_self]
      rfl
  have hmem' : ∀ c, c ∈ chain A ++ ((before ++ behind) ++ chain B) ↔
      c ∈ (chain A ++ before) ++ (behind ++ chain B) := by
    intro c
    simp only [List.mem_append]
    tauto
  have hrem := hlinked.remove hnd
  have hshape : Shape s₂ (A ++ (group b (before ++ behind) ++ B)) := by
    refine Shape.setGroup (s := s) (M := [(b, before ++ a :: behind)])
      (by simpa using h.toShape) (by simp) hpw hroute₂ hkept
      hinfo₂ (fun c hc => ?_) ?_ ?_ ?_ fun c hc => ?_
    · refine h.dest _ hx c ?_
      rw [List.perm_middle.mem_iff]
      exact List.mem_cons_of_mem _ hc
    · rw [show s₂.next = _ from hnext₂, show s₂.prev = _ from hprev₂]
      simpa [s₁] using hrem
    · simpa using hnd.sublist (by simp : ((chain A ++ before) ++ (behind ++ chain B)).Sublist _)
    · rw [show s₂.count = s.count - 1 from congrArg (· - 1) hcount₂, h.count, hchain]
      simp
      omega
    · have hc' := hmem c ((hmem' c).mp hc)
      rw [show s₂.live = s.live from hlive₂, show s₂.inTable = s.inTable from hinTable₂,
        show s₂.rnode = s.rnode from hrnode₂, show s₂.route = s.route from hroute₂, show s₂.lock = s.lock from hlock₂]
      exact ⟨h.live c hc', h.inTable c hc', h.rnode c hc', h.lock_pos c hc'⟩
  let s₃ : Rtable := setFlag s₂ a fun f => { f with wasRemoved := true }
  have hlock₃ : s₃.lock = s.lock := hlock₂
  have hlive₃ : s₃.live = s.live := hlive₂
  have hlocka : s.lock a = 1 + if cur = some a then 1 else 0 := by rw [h.lock a hlive, holders, if_pos ha]
  have hun : routeUnlock s₃ a = .ok (s₃.decLock a) := by
    refine if_pos ⟨?_, ?_⟩
    · rw [hlive₃]
      exact hlive
    · rw [hlock₃]
      exact h.lock_pos a ha
  have hchain' : chain (A ++ (group b (before ++ behind) ++ B)) = (chain A ++ before) ++ (behind ++ chain B) := by simp
  refine ⟨s₃.decLock a, A ++ (group b (before ++ behind) ++ B), ?_, ⟨?_, fun c hc => ?_, fun c hc => ?_⟩, hchain', ?_,
    hroute₂, fun c hc => ?_, fun c hc => ?_, fun c hc => ?_⟩
  · simp only [routeRemove, hb, hlook]
    rw [show (routeLockNode s.table b).info b = s.table.info b from rfl, hfind]
    simp only [bind, Except.bind, setNext, setPrev, hprev, hnext]
    rw [if_pos hpl]
    simp only [hnext', hprev]
    rw [if_pos hnl]
    simp only []
    rw [hshape.routeTableAssert]
    exact hun
  · have hsame : ∀ c ∈ chain (A ++ (group b (before ++ behind) ++ B)), c ≠ a := by
      rintro c hc rfl
      rw [hchain'] at hc
      exact hna hc
    refine ⟨hshape.kept, hshape.stored, hshape.info, hshape.nonempty, hshape.dest, hshape.linked, hshape.nodup,
      hshape.count, fun c hc => ?_, fun c hc => ?_, hshape.rnode, fun c hc => ?_⟩
    · rw [(decLock_of_ne (hsame c hc)).1]
      exact hshape.live c hc
    · rw [(decLock_of_ne (hsame c hc)).2.1]
      exact hshape.inTable c hc
    · rw [(decLock_of_ne (hsame c hc)).2.2]
      exact hshape.lock_pos c hc
  · by_cases hca : c = a
    · subst hca
      have hl : s₃.lock c - 1 ≠ 0 := by
        rw [hlock₃, hlocka, if_pos (Option.mem_def.mp hc)]
        omega
      simp only [Rtable.decLock, if_neg hl, hlive₃]
      exact h.cur_live c hc
    · rw [(decLock_of_ne hca).1, hlive₃]
      exact h.cur_live c hc
  · by_cases hca : c = a
    · subst hca
      rw [hchain', holders, if_neg hna]
      simp only [Rtable.decLock, Function.update_self, hlock₃, hlocka]
      omega
    · rw [(decLock_of_ne hca).1, hlive₃] at hc
      rw [(decLock_of_ne hca).2.2, hlock₃, h.lock c hc, hchain', hchain, holders, holders]
      simp only [List.mem_append, List.mem_cons, hca, false_or]
  · exact (congrFun hnext₂ a).trans (hnext'.trans hnext.symm)
  · exact (congrArg Flags.sansBest (Function.update_of_ne hc _ _)).trans (hflag₂ c)
  · rw [← hlive₃]
    exact live_of_decLock hc
  · rw [hb]
    refine congrArg Flags.best ((Function.update_of_ne hc _ _).trans ?_)
    exact congrFun (dropFirst_flag (s := s) (t := s₁) rfl (hnext'.trans hnext.symm) rfl rfl) c

theorem Rep.remove {as bs : List Addr} (h : Rep s cur gs) (hgs : chain gs = as ++ a :: bs) :
    ∃ s' gs', routeRemove s a = .ok s' ∧ Rep s' cur gs' ∧ chain gs' = as ++ bs ∧ s'.next a = s.next a ∧
      s'.route = s.route ∧ (∀ c, c ≠ a → (s'.flag c).sansBest = (s.flag c).sansBest) ∧
      ∀ c, s'.live c = true → s.live c = true := by
  obtain ⟨s', gs', hrem, hrep, hgs', hnext, hroute, hflag, hlive, -⟩ := h.remove_best hgs
  exact ⟨s', gs', hrem, hrep, hgs', hnext, hroute, hflag, hlive⟩

end Remove

end Harry.Routes
