import Harry.SiblingRouteChange

/-! Runs of a table of routes: routes are added, removed, looked up and gone through by loops. What the table then
holds is said by its groups: for each prefix the routes with this prefix, in the order in which `ospf6_route_add` puts
them. -/

namespace Harry.Routes

open Harry.Base Harry.Table Harry.Sibling

section Loop

variable {s : Rtable} {gs : List (List Bool × List Addr)} {a : Addr}

/-- A loop that stands nowhere comes to a route of the table. -/
theorem Rep.lock? (h : Rep s none gs) {o : Option Addr} (ho : ∀ a ∈ o, a ∈ chain gs) : Rep (s.lock? o) o gs := by
  cases o with
  | none => exact h
  | some a =>
      have hlive := h.live a (ho a rfl)
      refine ⟨⟨h.kept, h.stored, h.info, h.nonempty, h.dest, h.linked, h.nodup, h.count, h.live, h.inTable, h.rnode,
        fun c hc => ?_⟩, by simpa [Rtable.incLock] using hlive, fun c hc => ?_⟩
      · have hpos := h.lock_pos c hc
        by_cases hca : c = a
        · subst hca
          simp [Rtable.incLock]
        · simpa [Rtable.incLock, Function.update_of_ne hca] using hpos
      · have hlc := h.lock c hc
        by_cases hca : c = a
        · subst hca
          simp [Rtable.incLock, hlc, holders]
        · have hac : ¬ some a = some c := by simpa using Ne.symm hca
          simp only [lock?_some, Rtable.incLock, Function.update_of_ne hca]
          simp [hlc, holders, hac]

theorem Rep.routeHead (h : Rep s none gs) :
    routeHead s = .ok (s.lock? (chain gs).head?, (chain gs).head?) ∧
      Rep (s.lock? (chain gs).head?) (chain gs).head? gs :=
  ⟨h.toShape.routeHead, h.lock? fun _ ha => List.mem_of_mem_head? ha⟩

/-- A loop leaves the route it stands at, which is freed if it is not in the table any more. -/
theorem Rep.unlock (h : Rep s (some a) gs) : routeUnlock s a = .ok (s.decLock a) ∧ Rep (s.decLock a) none gs := by
  have hlive := h.cur_live a rfl
  have hlock : s.lock a = (if a ∈ chain gs then 1 else 0) + 1 := by simp [h.lock a hlive, holders]
  have hmem : ∀ c ∈ chain gs, (s.decLock a).live c = s.live c ∧ (s.decLock a).inTable c = s.inTable c := by
    intro c hc
    by_cases hca : c = a
    · subst hca
      rw [if_pos hc] at hlock
      simp [Rtable.decLock, hlock]
    · exact ⟨(decLock_of_ne hca).1, (decLock_of_ne hca).2.1⟩
  refine ⟨if_pos ⟨hlive, by omega⟩, ⟨h.kept, h.stored, h.info, h.nonempty, h.dest, h.linked, h.nodup, h.count,
    fun c hc => ?_, fun c hc => ?_, h.rnode, fun c hc => ?_⟩, by simp, fun c hc => ?_⟩
  · rw [(hmem c hc).1]
    exact h.live c hc
  · rw [(hmem c hc).2]
    exact h.inTable c hc
  · by_cases hca : c = a
    · subst hca
      simp [Rtable.decLock, hlock, hc]
    · rw [(decLock_of_ne hca).2.2]
      exact h.lock_pos c hc
  · by_cases hca : c = a
    · subst hca
      simp [Rtable.decLock, hlock, holders]
    · rw [(decLock_of_ne hca).1] at hc
      have hac : ¬ some a = some c := by simpa using Ne.symm hca
      rw [(decLock_of_ne hca).2.2, h.lock c hc]
      simp [holders, hac]

theorem lock?_route (o : Option Addr) : (s.lock? o).route = s.route := by
  cases o <;> rfl

theorem lock?_flag (o : Option Addr) : (s.lock? o).flag = s.flag := by
  cases o <;> rfl

theorem lock?_live (o : Option Addr) : (s.lock? o).live = s.live := by
  cases o <;> rfl

theorem Rep.routeNext (h : Rep s (some a) gs) (hnext : ∀ c ∈ s.next a, c ∈ chain gs) :
    ∃ s', routeNext s a = .ok (s', s.next a) ∧ Rep s' (s.next a) gs ∧ s'.route = s.route ∧ s'.flag = s.flag ∧
      ∀ c, s'.live c = true → s.live c = true := by
  obtain ⟨hun, hrep⟩ := h.unlock
  have hlive : ∀ c ∈ s.next a, (s.decLock a).live c = true := fun c hc => hrep.live c (hnext c hc)
  refine ⟨(s.decLock a).lock? (s.next a), ?_, hrep.lock? hnext, lock?_route _, lock?_flag _, fun c hc => ?_⟩
  swap
  · rw [lock?_live] at hc
    exact live_of_decLock hc
  simp only [Routes.routeNext, bind, Except.bind, hun, routeLock?_eq hlive]
  rfl

/-- The rule for a loop over a table. `I` is about the routes the loop has left in the table, those it still comes to,
and what it works on; a visit may take the route it is at out of the table. -/
theorem Rep.loop {σ : Type} {v : Rtable × σ → Addr → Except Abort (Rtable × σ)}
    {I : List Addr → List Addr → (Addr → Route) → (Addr → Flags) → σ → Prop}
    (hvisit : ∀ l a m s gs e, Rep s (some a) gs → chain gs = l ++ a :: m → I l (a :: m) s.route s.flag e →
      ∃ s' e' gs' l', v (s, e) a = .ok (s', e') ∧ Rep s' (some a) gs' ∧ chain gs' = l' ++ m ∧
        s'.next a = s.next a ∧ I l' m s'.route s'.flag e' ∧ ∀ c, s'.live c = true → s.live c = true)
    {l m : List Addr} {e : σ} {n : Nat} (h : Rep s m.head? gs) (hgs : chain gs = l ++ m) (hn : m.length ≤ n)
    (hI : I l m s.route s.flag e) :
    ∃ s' e' gs', loopFrom v n (s, e) m.head? = .ok (s', e') ∧ Rep s' none gs' ∧
      I (chain gs') [] s'.route s'.flag e' ∧ ∀ c, s'.live c = true → s.live c = true := by
  induction m generalizing s gs l e n with
  | nil =>
      rw [List.append_nil] at hgs
      exact ⟨s, e, gs, by simp [loopFrom], h, hgs ▸ hI, fun c hc => hc⟩
  | cons a m ih =>
      obtain ⟨n, rfl⟩ : ∃ k, n = k + 1 := ⟨n - 1, by simp at hn; omega⟩
      have hnext : s.next a = m.head? := by
        have hlinked := h.linked
        rw [hgs] at hlinked
        exact hlinked.neighbours.2
      obtain ⟨s₁, e₁, gs₁, l₁, hv, hrep₁, hgs₁, hn₁, hI₁, hlive₁⟩ := hvisit l a m s gs e h hgs hI
      rw [hnext] at hn₁
      obtain ⟨s₂, hstep, hrep₂, hr₂, hf₂, hlive₂⟩ := hrep₁.routeNext fun c hc => by
        rw [hn₁] at hc
        simp [hgs₁, List.mem_of_mem_head? hc]
      rw [hn₁] at hstep hrep₂
      obtain ⟨s', e', gs', hloop, hrep', hI', hlive'⟩ := ih (n := n) (e := e₁) hrep₂ hgs₁ (by simpa using hn)
        (by rw [hr₂, hf₂]; exact hI₁)
      refine ⟨s', e', gs', ?_, hrep', hI', fun c hc => hlive₁ c (hlive₂ c (hlive' c hc))⟩
      simp only [loopFrom, List.head?_cons, hv, bind, Except.bind, hstep, hloop]

theorem Rep.forEach {σ : Type} {v : Rtable × σ → Addr → Except Abort (Rtable × σ)}
    {I : List Addr → List Addr → (Addr → Route) → (Addr → Flags) → σ → Prop}
    (hvisit : ∀ l a m s gs e, Rep s (some a) gs → chain gs = l ++ a :: m → I l (a :: m) s.route s.flag e →
      ∃ s' e' gs' l', v (s, e) a = .ok (s', e') ∧ Rep s' (some a) gs' ∧ chain gs' = l' ++ m ∧
        s'.next a = s.next a ∧ I l' m s'.route s'.flag e' ∧ ∀ c, s'.live c = true → s.live c = true)
    {e : σ} (h : Rep s none gs) (hI : I [] (chain gs) s.route s.flag e) :
    ∃ s' e' gs', forEach v (s, e) = .ok (s', e') ∧ Rep s' none gs' ∧
      I (chain gs') [] s'.route s'.flag e' ∧ ∀ c, s'.live c = true → s.live c = true := by
  obtain ⟨hhead, hrep⟩ := h.routeHead
  obtain ⟨s', e', gs', hloop, hrep', hI', hlive⟩ := Rep.loop hvisit (l := []) (n := s.count) hrep rfl h.count.ge
    (by rw [lock?_route, lock?_flag]; exact hI)
  rw [lock?_live] at hlive
  refine ⟨s', e', gs', ?_, hrep', hI', hlive⟩
  simp only [Routes.forEach, hhead, bind, Except.bind, hloop]

end Loop

/-! ### Runs -/

/-- What is done with a table: routes are created and added, removed and looked up, and loops remove some of them. -/
inductive Op where
  | add (a : Addr) (r : Route) (f : Flags)
  | remove (a : Addr)
  | lookup (p : List Bool)
  | sweep (drop : Addr → Bool)

def step (s : Rtable) : Op → Except Abort Rtable
  | .add a r f => (routeAdd (routeCreate s a r f) a).map Prod.fst
  | .remove a => routeRemove s a
  | .lookup p => .ok (routeLookup s p).1
  | .sweep drop => sweep drop s

/-- `ospf6_route_table_create`. -/
def empty : Rtable where
  route _ := default
  flag _ := default
  next _ := none
  prev _ := none
  lock _ := 0
  rnode _ := none
  inTable _ := false
  live _ := false
  table := routeTableInit
  count := 0

/-- What a table is for: the routes with one prefix, for each prefix. -/
structure Contents where
  route : Addr → Route
  routes : List Bool → List Addr

/-- A route is put where the search in its group ends. One that says the same as a route there changes nothing. -/
def Contents.add (c : Contents) (a : Addr) (r : Route) : Except Abort Contents := do
  let route := Function.update c.route a r
  let (before, old, behind) ← groupSearch route r (c.routes r.dest)
  if ∃ o ∈ old, isIdentical (route o) r then pure { c with route }
  else pure ⟨route, Function.update c.routes r.dest (before ++ a :: behind)⟩

def Contents.step (c : Contents) : Op → Except Abort Contents
  | .add a r _ => c.add a r
  | .remove a => .ok { c with routes := fun p => (c.routes p).erase a }
  | .lookup _ => .ok c
  | .sweep drop => .ok { c with routes := fun p => (c.routes p).filter fun a => !drop a }

def Contents.empty : Contents :=
  ⟨fun _ => default, fun _ => []⟩

/-- A route is created where nothing is allocated, and removed if it is present. -/
def Op.Legal (s : Rtable) (c : Contents) : Op → Prop
  | .add a _ _ => s.live a = false
  | .remove a => a ∈ c.routes (c.route a).dest
  | .lookup _ | .sweep _ => True

def LegalRun : Rtable → Contents → List Op → Prop
  | _, _, [] => True
  | s, c, op :: ops =>
    op.Legal s c ∧
      match step s op, c.step op with
      | .ok s', .ok c' => LegalRun s' c' ops
      | _, _ => True

instance (s : Rtable) (c : Contents) (op : Op) : Decidable (op.Legal s c) :=
  match op with
  | .add a _ _ => inferInstanceAs (Decidable (s.live a = false))
  | .remove a => inferInstanceAs (Decidable (a ∈ c.routes (c.route a).dest))
  | .lookup _ | .sweep _ => .isTrue trivial

def decidableLegalRun : (s : Rtable) → (c : Contents) → (ops : List Op) → Decidable (LegalRun s c ops)
  | _, _, [] => .isTrue trivial
  | s, c, op :: ops =>
    let _ : Decidable (match step s op, c.step op with
        | .ok s', .ok c' => LegalRun s' c' ops
        | _, _ => True) :=
      match step s op, c.step op with
      | .ok s', .ok c' => decidableLegalRun s' c' ops
      | .ok _, .error _ | .error _, .ok _ | .error _, .error _ => .isTrue trivial
    inferInstanceAs (Decidable (_ ∧ _))

instance (s : Rtable) (c : Contents) (ops : List Op) : Decidable (LegalRun s c ops) :=
  decidableLegalRun s c ops

/-- A table holds what it should. -/
structure Tracks (s : Rtable) (c : Contents) (gs : List (List Bool × List Addr)) : Prop where
  rep : Rep s none gs
  route : s.route = c.route
  routes : ∀ p, groupAt gs p = c.routes p

theorem empty_rep : Rep empty none [] where
  kept := Kept.init
  stored := rfl
  info := by simp
  nonempty := by simp
  dest := by simp
  linked := trivial
  nodup := List.nodup_nil
  count := rfl
  live := by simp
  inTable := by simp
  rnode := by simp
  lock_pos := by simp
  cur_live := by simp
  lock := by simp [empty]

section Tracks

variable {s : Rtable} {c : Contents} {gs : List (List Bool × List Addr)} {a : Addr}

/-- The group of a prefix are the routes that have it. -/
theorem Shape.groupAt_eq (h : Shape s gs) (p : List Bool) :
    groupAt gs p = (chain gs).filter fun a => (s.route a).dest == p := by
  obtain ⟨-, -, A, M, B, -, rfl, -, -, hpw, hM⟩ := h.place p
  obtain ⟨hneA, hneB⟩ := ne_of_pairwise hpw
  have hnone : ∀ {N : List (List Bool × List Addr)}, (∀ x ∈ N, x ∈ A ++ (M ++ B)) → (∀ x ∈ N, x.1 ≠ p) →
      ((chain N).filter fun a => (s.route a).dest == p) = [] := by
    intro N hsub hN
    rw [List.filter_eq_nil_iff]
    intro a ha hap
    obtain ⟨x, hx, hax⟩ := mem_chain.mp ha
    exact hN x hx ((h.dest x (hsub x hx) a hax).symm.trans (beq_iff_eq.mp hap))
  have hA := hnone (N := A) (fun x hx => by simp [hx]) hneA
  have hB := hnone (N := B) (fun x hx => by simp [hx]) hneB
  obtain ⟨rfl, -⟩ | ⟨g, rfl, hg, -⟩ := hM
  · have hat : groupAt (A ++ ([] ++ B)) p = [] := by simpa [group] using groupAt_self (g := []) hneA hneB
    rw [hat, chain_append, chain_append, List.filter_append, List.filter_append, hA, hB]
    rfl
  · have hat : groupAt (A ++ ([(p, g)] ++ B)) p = g := by
      simpa [group, hg] using groupAt_self (g := g) hneA hneB
    have hgp : (g.filter fun a => (s.route a).dest == p) = g := by
      rw [List.filter_eq_self]
      intro a ha
      exact beq_iff_eq.mpr (h.dest (p, g) (by simp) a ha)
    rw [hat, chain_append, chain_append, List.filter_append, List.filter_append, hA, hB]
    simp [hgp]

/-- What hangs on the node of a prefix. -/
theorem Shape.info_eq (h : Shape s gs) (p : List Bool) :
    s.table.info p = (groupAt gs p).head? := by
  obtain ⟨-, -, A, M, B, -, rfl, -, -, hpw, hM⟩ := h.place p
  obtain ⟨hneA, hneB⟩ := ne_of_pairwise hpw
  obtain ⟨rfl, hnone⟩ | ⟨g, rfl, hg, hinfo⟩ := hM
  · have hat : groupAt (A ++ ([] ++ B)) p = [] := by simpa [group] using groupAt_self (g := []) hneA hneB
    rw [hat, hnone]
    rfl
  · have hat : groupAt (A ++ ([(p, g)] ++ B)) p = g := by
      simpa [group, hg] using groupAt_self (g := g) hneA hneB
    rw [hat, hinfo]

/-- A route that is created is not in the table. -/
theorem Rep.create (h : Rep s none gs) (ha : s.live a = false) (r : Route) (f : Flags) :
    Rep (routeCreate s a r f) none gs ∧ Fresh (routeCreate s a r f) a := by
  have hne : ∀ c ∈ chain gs, c ≠ a := by
    rintro c hc rfl
    rw [h.live c hc] at ha
    exact absurd ha (by simp)
  refine ⟨⟨⟨h.kept, h.stored, h.info, h.nonempty, fun x hx c hc => ?_, ?_, h.nodup, h.count, fun c hc => ?_,
    fun c hc => ?_, fun c hc => ?_, fun c hc => ?_⟩, by simp, fun c hc => ?_⟩,
    by constructor <;> simp [routeCreate]⟩
  · have hca := hne c (mem_chain.mpr ⟨x, hx, hc⟩)
    simpa [routeCreate, Function.update_of_ne hca] using h.dest x hx c hc
  · refine Seg.congr h.linked (fun c hc => ?_) fun c hc => ?_ <;>
      exact Function.update_of_ne (hne c hc) _ _
  · simpa [routeCreate, Function.update_of_ne (hne c hc)] using h.live c hc
  · simpa [routeCreate, Function.update_of_ne (hne c hc)] using h.inTable c hc
  · simpa [routeCreate, Function.update_of_ne (hne c hc)] using h.rnode c hc
  · simpa [routeCreate, Function.update_of_ne (hne c hc)] using h.lock_pos c hc
  · by_cases hca : c = a
    · subst hca
      have hmem : c ∉ chain gs := fun hm => hne c hm rfl
      simp [routeCreate, holders, hmem]
    · simp only [routeCreate, Function.update_of_ne hca] at hc ⊢
      exact h.lock c hc

theorem Tracks.add (h : Tracks s c gs) (ha : s.live a = false) (r : Route) (f : Flags) :
    (∀ e, c.step (.add a r f) = .error e → step s (.add a r f) = .error e) ∧
    ∀ c', c.step (.add a r f) = .ok c' → ∃ s' gs', step s (.add a r f) = .ok s' ∧ Tracks s' c' gs' := by
  obtain ⟨hrep, hfresh⟩ := h.rep.create ha r f
  have hr : (routeCreate s a r f).route a = r := by simp [routeCreate]
  have hroute : (routeCreate s a r f).route = Function.update c.route a r := by simp [routeCreate, h.route]
  obtain ⟨herror, hok⟩ := hrep.add hfresh
  rw [hr, hroute, h.routes] at herror hok
  cases hs : groupSearch (Function.update c.route a r) r (c.routes r.dest) with
  | error e =>
      refine ⟨fun e' he' => ?_, fun c' hc' => ?_⟩
      · simp only [Contents.step, Contents.add, hs, bind, Except.bind, Except.error.injEq] at he'
        subst he'
        simp [Routes.step, herror e hs, Except.map]
      · simp [Contents.step, Contents.add, hs, bind, Except.bind] at hc'
  | ok x =>
      obtain ⟨before, old, behind⟩ := x
      obtain ⟨s', t, gs', hadd, hadded⟩ := hok before old behind hs
      have hothers : ∀ p, p ≠ r.dest → groupAt gs' p = c.routes p := by
        intro p hp
        rw [← h.routes]
        exact hadded.others p (by rw [hr]; exact hp)
      refine ⟨fun e he => ?_, fun c' hc' => ⟨s', gs', by simp [Routes.step, hadd, Except.map], ?_⟩⟩
      · simp only [Contents.step, Contents.add, hs, bind, Except.bind, pure, Except.pure] at he
        split at he <;> exact absurd he (by simp)
      · simp only [Contents.step, Contents.add, hs, bind, Except.bind, pure, Except.pure] at hc'
        have hsame := hadded.same
        have hchanged := hadded.changed
        rw [hr, hroute] at hsame hchanged
        by_cases hid : ∃ o ∈ old, isIdentical (Function.update c.route a r o) r = true
        · rw [if_pos hid, Except.ok.injEq] at hc'
          subst hc'
          obtain ⟨o, ho, hio⟩ := hid
          refine ⟨hadded.rep, hadded.route.trans hroute, fun p => ?_⟩
          by_cases hp : p = r.dest
          · subst hp
            exact (hsame o ho hio).2.1.trans (h.routes _)
          · exact hothers p hp
        · rw [if_neg hid, Except.ok.injEq] at hc'
          subst hc'
          refine ⟨hadded.rep, hadded.route.trans hroute, fun p => ?_⟩
          by_cases hp : p = r.dest
          · subst hp
            change _ = Function.update c.routes r.dest (before ++ a :: behind) r.dest
            rw [Function.update_self]
            cases old with
            | none =>
                have hnew := (hadded.new rfl).2.1
                rw [hr] at hnew
                exact hnew
            | some o =>
                refine (hchanged o rfl ?_).2.1
                simpa using fun hio => hid ⟨o, rfl, hio⟩
          · exact (hothers p hp).trans (Function.update_of_ne hp _ _).symm

theorem Tracks.remove (h : Tracks s c gs) (ha : a ∈ c.routes (c.route a).dest) :
    ∃ s' c' gs', c.step (.remove a) = .ok c' ∧ step s (.remove a) = .ok s' ∧ Tracks s' c' gs' := by
  have hmem : a ∈ chain gs := by
    rw [← h.routes, h.rep.groupAt_eq] at ha
    exact List.mem_of_mem_filter ha
  obtain ⟨as, bs, hgs⟩ := List.append_of_mem hmem
  obtain ⟨s', gs', hrem, hrep, hgs', -, hroute, -, -⟩ := h.rep.remove hgs
  refine ⟨s', _, gs', rfl, hrem, hrep, hroute.trans h.route, fun p => ?_⟩
  have hnd := h.rep.nodup
  have herase : chain gs' = (chain gs).erase a := by
    rw [hgs] at hnd
    have hna : a ∉ as := fun hm => (List.nodup_append.mp hnd).2.2 a hm a (by simp) rfl
    rw [hgs', hgs, List.erase_append_right _ hna, List.erase_cons_head]
  have hroutes : c.routes p = (chain gs).filter fun a => (s.route a).dest == p := by
    rw [← h.routes, h.rep.groupAt_eq]
  refine Eq.trans ?_ (congrArg (List.erase · a) hroutes).symm
  rw [hrep.groupAt_eq, herase, hroute, hnd.erase_eq_filter, (hnd.filter _).erase_eq_filter, List.filter_filter,
    List.filter_filter]
  exact List.filter_congr fun d _ => Bool.and_comm _ _

/-- A loop that removes routes sees all that were there when it began. -/
theorem Rep.sweep (h : Rep s none gs) (drop : Addr → Bool) :
    ∃ s' gs', sweep drop s = .ok s' ∧ Rep s' none gs' ∧ chain gs' = (chain gs).filter (fun a => !drop a) ∧
      s'.route = s.route ∧ ∀ c, s'.live c = true → s.live c = true := by
  have hforEach := Rep.forEach (v := fun x a => if drop a then (routeRemove x.1 a).map (·, ()) else .ok x)
    (I := fun l m route _ (_ : Unit) => l ++ m.filter (fun a => !drop a) = (chain gs).filter (fun a => !drop a) ∧
      route = s.route) (fun l a m s₁ gs₁ e h₁ hgs₁ hI => ?_) h (e := ()) (by simp)
  · obtain ⟨s', u, gs', hsweep, hrep, ⟨hI, hroute⟩, hlive⟩ := hforEach
    refine ⟨s', gs', ?_, hrep, by simpa using hI, hroute, hlive⟩
    rw [Routes.sweep, hsweep]
    rfl
  · obtain ⟨hI, hroute⟩ := hI
    by_cases hdrop : drop a = true
    · obtain ⟨s', gs', hrem, hrep, hgs', hnext, hroute', -, hlive⟩ := h₁.remove hgs₁
      refine ⟨s', (), gs', l, by simp [hdrop, hrem, Except.map], hrep, hgs', hnext, ⟨?_, hroute'.trans hroute⟩, hlive⟩
      simpa [hdrop] using hI
    · refine ⟨s₁, (), gs₁, l ++ [a], by simp [hdrop], h₁, by simp [hgs₁], rfl, ⟨?_, hroute⟩, fun c hc => hc⟩
      simpa [hdrop] using hI

theorem Tracks.sweep (h : Tracks s c gs) (drop : Addr → Bool) :
    ∃ s' c' gs', c.step (.sweep drop) = .ok c' ∧ step s (.sweep drop) = .ok s' ∧ Tracks s' c' gs' := by
  obtain ⟨s', gs', hsweep, hrep, hgs', hroute, -⟩ := h.rep.sweep drop
  refine ⟨s', _, gs', rfl, hsweep, hrep, hroute.trans h.route, fun p => ?_⟩
  have hroutes : c.routes p = (chain gs).filter fun a => (s.route a).dest == p := by
    rw [← h.routes, h.rep.groupAt_eq]
  refine Eq.trans ?_ (congrArg (List.filter fun a => !drop a) hroutes).symm
  rw [hrep.groupAt_eq, hgs', hroute, List.filter_filter, List.filter_filter]
  exact List.filter_congr fun d _ => Bool.and_comm _ _

/-- A lookup finds the first route with a prefix, and holds its node from then on. -/
theorem Rep.lookup {cur : Option Addr} (h : Rep s cur gs) (p : List Bool) :
    Rep (routeLookup s p).1 cur gs ∧ (routeLookup s p).2 = (groupAt gs p).head? ∧ (routeLookup s p).1.route = s.route ∧
      (routeLookup s p).1.flag = s.flag ∧ (routeLookup s p).1.live = s.live := by
  have hlook := h.kept.routeNodeLookup (k := p)
  by_cases hp : s.table.info p = none
  · rw [if_pos hp] at hlook
    rw [routeLookup, hlook, ← h.info_eq, hp]
    exact ⟨h, rfl, rfl, rfl, rfl⟩
  · rw [if_neg hp] at hlook
    have hkept := h.kept.lock p
    rw [routeLookup, hlook, ← h.info_eq]
    exact ⟨⟨⟨hkept, (stored_congr h.kept hkept rfl).trans h.stored, h.info, h.nonempty, h.dest, h.linked, h.nodup,
      h.count, h.live, h.inTable, h.rnode, h.lock_pos⟩, h.cur_live, h.lock⟩, rfl, rfl, rfl, rfl⟩

theorem Tracks.lookup (h : Tracks s c gs) (p : List Bool) : Tracks (routeLookup s p).1 c gs := by
  obtain ⟨hrep, -, hroute, -, -⟩ := h.rep.lookup p
  exact ⟨hrep, hroute.trans h.route, h.routes⟩

/-- An operation is done as it should be, or fails where it should. -/
theorem Tracks.step (h : Tracks s c gs) {op : Op} (hop : op.Legal s c) :
    (∀ e, c.step op = .error e → step s op = .error e) ∧
    ∀ c', c.step op = .ok c' → ∃ s' gs', step s op = .ok s' ∧ Tracks s' c' gs' := by
  cases op with
  | add a r f => exact h.add hop r f
  | remove a =>
      obtain ⟨s', c', gs', hc', hs', htracks⟩ := h.remove hop
      refine ⟨fun e he => by simp [hc'] at he, fun d hd => ?_⟩
      obtain rfl := Except.ok.inj (hc'.symm.trans hd)
      exact ⟨s', gs', hs', htracks⟩
  | lookup p =>
      refine ⟨fun e he => by simp [Contents.step] at he, fun d hd => ?_⟩
      obtain rfl := Except.ok.inj hd
      exact ⟨_, gs, rfl, h.lookup p⟩
  | sweep drop =>
      obtain ⟨s', c', gs', hc', hs', htracks⟩ := h.sweep drop
      refine ⟨fun e he => by simp [hc'] at he, fun d hd => ?_⟩
      obtain rfl := Except.ok.inj (hc'.symm.trans hd)
      exact ⟨s', gs', hs', htracks⟩

theorem Tracks.run (h : Tracks s c gs) {ops : List Op} (hops : LegalRun s c ops) :
    (∀ e, ops.foldlM Contents.step c = .error e → ops.foldlM Routes.step s = .error e) ∧
    ∀ c', ops.foldlM Contents.step c = .ok c' →
      ∃ s' gs', ops.foldlM Routes.step s = .ok s' ∧ Tracks s' c' gs' := by
  induction ops generalizing s c gs with
  | nil =>
      refine ⟨fun e he => by simp [pure, Except.pure] at he, fun c' hc' => ?_⟩
      obtain rfl := Except.ok.inj hc'
      exact ⟨s, gs, rfl, h⟩
  | cons op ops ih =>
      obtain ⟨herror, hok⟩ := h.step hops.1
      simp only [List.foldlM_cons, bind, Except.bind]
      cases hc : c.step op with
      | error e =>
          rw [herror e hc]
          exact ⟨fun e' he' => congrArg _ (Except.error.inj he'), fun c' hc' => by simp at hc'⟩
      | ok c₁ =>
          obtain ⟨s₁, gs₁, hs₁, htracks⟩ := hok c₁ hc
          rw [hs₁]
          refine ih htracks ?_
          have hlater := hops.2
          rwa [hs₁, hc] at hlater

end Tracks

section Contents

variable {c c' : Contents} {a : Addr} {r : Route} {e : Abort} {ops : List Op}

theorem Contents.add_error (h : c.add a r = .error e) :
    e = .routeCmp ∧ ∃ d ∈ c.routes r.dest, ¬ ((Function.update c.route a r d).path.Typed ∧ r.path.Typed) := by
  simp only [Contents.add, bind, Except.bind] at h
  cases hs : groupSearch (Function.update c.route a r) r (c.routes r.dest) with
  | error e' =>
      rw [hs, Except.error.injEq] at h
      exact h ▸ groupSearch_error hs
  | ok x =>
      simp only [hs, pure, Except.pure] at h
      split at h <;> exact absurd h (by simp)

theorem Contents.mem_add (h : c.add a r = .ok c') :
    c'.route = Function.update c.route a r ∧ ∀ p, ∀ b ∈ c'.routes p, b = a ∨ b ∈ c.routes p := by
  simp only [Contents.add, bind, Except.bind] at h
  cases hs : groupSearch (Function.update c.route a r) r (c.routes r.dest) with
  | error e' => simp [hs] at h
  | ok x =>
      obtain ⟨before, old, behind⟩ := x
      have hgroup := groupSearch_eq hs
      simp only [hs, pure, Except.pure] at h
      split_ifs at h
      · obtain rfl := Except.ok.inj h
        exact ⟨rfl, fun p b hb => .inr hb⟩
      · obtain rfl := Except.ok.inj h
        refine ⟨rfl, fun p b hb => ?_⟩
        by_cases hp : p = r.dest
        · subst hp
          simp only [Function.update_self, List.mem_append, List.mem_cons] at hb
          obtain hb | rfl | hb := hb
          · exact .inr (by simp [hgroup, hb])
          · exact .inl rfl
          · exact .inr (by simp [hgroup, hb])
        · simp only [Function.update_of_ne hp] at hb
          exact .inr hb

/-- A run fails only in `ospf6_route_cmp`. -/
theorem Contents.run_error (h : ops.foldlM Contents.step c = .error e) : e = .routeCmp := by
  induction ops generalizing c with
  | nil => simp [pure, Except.pure] at h
  | cons op ops ih =>
      rw [List.foldlM_cons] at h
      cases hc : c.step op with
      | error e' =>
          simp only [hc, bind, Except.bind, Except.error.injEq] at h
          subst h
          cases op with
          | add a r f => exact (Contents.add_error hc).1
          | remove a => simp [Contents.step] at hc
          | lookup p => simp [Contents.step] at hc
          | sweep drop => simp [Contents.step] at hc
      | ok c' =>
          simp only [hc, bind, Except.bind] at h
          exact ih h

/-- A run of routes whose paths have types does not fail. -/
theorem Contents.run_typed (hc : ∀ p, ∀ b ∈ c.routes p, (c.route b).path.Typed)
    (hops : ∀ a r f, .add a r f ∈ ops → r.path.Typed) : ∃ c', ops.foldlM Contents.step c = .ok c' := by
  induction ops generalizing c with
  | nil => exact ⟨c, rfl⟩
  | cons op ops ih =>
      have hlater := fun a r f hmem => hops a r f (List.mem_cons_of_mem op hmem)
      rw [List.foldlM_cons]
      cases op with
      | add a r f =>
          have hr := hops a r f (by simp)
          have htyped : ∀ p, ∀ b ∈ c.routes p, (Function.update c.route a r b).path.Typed := by
            intro p b hb
            by_cases hba : b = a
            · simpa [hba] using hr
            · rw [Function.update_of_ne hba]
              exact hc p b hb
          simp only [Contents.step, bind, Except.bind]
          cases hadd : c.add a r with
          | error e =>
              obtain ⟨-, d, hd, hnot⟩ := Contents.add_error hadd
              exact absurd ⟨htyped _ d hd, hr⟩ hnot
          | ok c₁ =>
              obtain ⟨hroute, hmem⟩ := Contents.mem_add hadd
              refine ih (fun p b hb => ?_) hlater
              rw [hroute]
              obtain rfl | hb := hmem p b hb
              · simpa using hr
              · exact htyped p b hb
      | remove a => exact ih (fun p b hb => hc p b (List.mem_of_mem_erase hb)) hlater
      | lookup p => exact ih hc hlater
      | sweep drop => exact ih (fun p b hb => hc p b (List.mem_of_mem_filter hb)) hlater

end Contents

/-- A table whose list, tree and counter say what they should: `ps` are the prefixes of its routes, in the order of the
tree, and `l` are its routes. -/
structure Represents (s : Rtable) (c : Contents) (ps : List (List Bool)) (l : List Addr) : Prop where
  ascending : ps.Pairwise (· < ·)
  stored : stored s.table = ps
  mem : ∀ p, p ∈ ps ↔ c.routes p ≠ []
  groups : l = ps.flatMap c.routes
  dest : ∀ p, ∀ a ∈ c.routes p, (c.route a).dest = p
  route : s.route = c.route
  nodup : l.Nodup
  head : ∃ s', routeHead s = .ok (s', l.head?)
  next : ∀ as a bs, l = as ++ a :: bs → s.next a = bs.head?
  prev : ∀ as a bs, l = as ++ a :: bs → s.prev a = as.getLast?
  next_iff_prev : ∀ a ∈ l, ∀ b ∈ l, s.next a = some b ↔ s.prev b = some a
  info : ∀ p, s.table.info p = (c.routes p).head?
  count : s.count = l.length
  assert : routeTableAssert s = .ok s
  removeAll : ∃ s' s'', routeRemoveAll s = .ok s' ∧ routeHead s' = .ok (s'', none) ∧ s'.count = 0 ∧
    ∀ p, s'.table.info p = none

theorem Shape.groupAt_mem {s : Rtable} {gs : List (List Bool × List Addr)} (h : Shape s gs)
    {x : List Bool × List Addr} (hx : x ∈ gs) : groupAt gs x.1 = x.2 := by
  obtain ⟨A, B, rfl⟩ := List.append_of_mem hx
  have hpw := h.kept.stored_pairwise
  rw [h.stored, List.map_append, List.map_cons] at hpw
  obtain ⟨hneA, hneB⟩ := ne_of_pairwise hpw
  have hself := groupAt_self (g := x.2) hneA hneB
  rwa [group, if_neg (h.nonempty x hx)] at hself

theorem Tracks.represents {s : Rtable} {c : Contents} {gs : List (List Bool × List Addr)} (h : Tracks s c gs) :
    Represents s c (gs.map Prod.fst) (chain gs) where
  ascending := by
    rw [← h.rep.stored]
    exact h.rep.kept.stored_pairwise
  stored := h.rep.stored
  mem p := by
    rw [← h.rep.stored, h.rep.kept.mem_stored, h.rep.info_eq, h.routes]
    simp
  groups := by
    rw [chain, List.flatMap_map]
    refine List.flatMap_congr fun x hx => ?_
    rw [← h.routes, h.rep.groupAt_mem hx]
  dest p a ha := by
    rw [← h.routes, h.rep.groupAt_eq] at ha
    rw [← h.route]
    exact beq_iff_eq.mp (List.mem_filter.mp ha).2
  route := h.route
  nodup := h.rep.nodup
  head := ⟨_, h.rep.toShape.routeHead⟩
  next as a bs hl := by
    have hlinked := h.rep.linked
    rw [hl] at hlinked
    exact hlinked.neighbours.2
  prev as a bs hl := by
    have hlinked := h.rep.linked
    rw [hl] at hlinked
    exact hlinked.neighbours.1
  next_iff_prev a ha b hb := h.rep.linked.next_iff_prev ha hb
  info p := by rw [h.rep.info_eq, h.routes]
  count := h.rep.count
  assert := h.rep.toShape.routeTableAssert
  removeAll := by
    obtain ⟨s', gs', hsweep, hrep, hgs', -⟩ := h.rep.sweep fun _ => true
    have hnil : chain gs' = [] := by rw [hgs', List.filter_eq_nil_iff]; simp
    have hhead := hrep.toShape.routeHead
    rw [hnil, List.head?_nil] at hhead
    refine ⟨s', _, hsweep, hhead, ?_, fun p => ?_⟩
    · rw [hrep.count, hnil]
      rfl
    · rw [hrep.info_eq, hrep.groupAt_eq, hnil]
      rfl

/-- Whatever is done with a table, no assertion of it fails, and its list, its tree and its counter agree. A run ends
early only where `ospf6_route_cmp` meets a path without a type. -/
theorem route_table_represents (ops : List Op) (hops : LegalRun empty .empty ops) :
    (∃ s c ps l, ops.foldlM step empty = .ok s ∧ ops.foldlM Contents.step .empty = .ok c ∧ Represents s c ps l) ∨
    (ops.foldlM step empty = .error .routeCmp ∧ ∃ a r f, Op.add a r f ∈ ops ∧ ¬ r.path.Typed) := by
  have hempty : Tracks empty .empty [] := ⟨empty_rep, rfl, fun _ => rfl⟩
  obtain ⟨herror, hok⟩ := hempty.run hops
  cases hc : ops.foldlM Contents.step .empty with
  | error e =>
      obtain rfl := Contents.run_error hc
      refine .inr ⟨herror _ hc, ?_⟩
      by_contra hno
      push Not at hno
      obtain ⟨c', hc'⟩ := Contents.run_typed (c := .empty) (by simp [Contents.empty]) hno
      rw [hc] at hc'
      exact absurd hc' (by simp)
  | ok c =>
      obtain ⟨s, gs, hs, htracks⟩ := hok c hc
      exact .inl ⟨s, c, _, _, hs, rfl, htracks.represents⟩

/-- A route of the given origin and cost. -/
def sampleRoute (dest : List Bool) (advRouter : UInt32) (cost : UInt32) : Route :=
  { type := 2, dest, path := { (default : Path) with origin := ⟨0x2009, 0, advRouter⟩, type := 1, cost }, nexthop := [],
    hostnum := 0 }

/-- Two routes with one prefix, of which the first is replaced and removed, and one with a shorter prefix. -/
def sampleOps : List Op :=
  [.add 0 (sampleRoute [true, false] 1 10) default, .add 1 (sampleRoute [true, false] 2 5) default,
    .add 2 (sampleRoute [true] 1 7) default, .add 3 (sampleRoute [true, false] 1 20) default, .remove 3]

theorem route_table_represents_example :
    (∃ s c ps l, sampleOps.foldlM step empty = .ok s ∧ sampleOps.foldlM Contents.step .empty = .ok c ∧
      Represents s c ps l) ∨
    (sampleOps.foldlM step empty = .error .routeCmp ∧ ∃ a r f, Op.add a r f ∈ sampleOps ∧ ¬ r.path.Typed) :=
  route_table_represents _ (by decide)

end Harry.Routes
