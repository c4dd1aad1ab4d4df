import Mathlib.Data.List.Perm.Basic
import Harry.SiblingPrefixes
import Harry.SiblingRouteBest

/-! `ospf6_intra_route_calculation`. The routes in the table of an area are marked, the routes for the prefixes of all
LSAs are added once more, and what is left with its mark is swept out; what is new or changed goes to the table of the
router, by the hooks of the table of the area. An address is given to a route once only, and both tables take theirs from
one supply. The prefixes of the LSAs are masked ones: a destination is the bits up to its length. -/

namespace Harry.Routes

open Harry.Base Harry.Table Harry.Sibling

/-- The table of an area and that of the router, with the first address that has not been given away. -/
structure Tables where
  area : Rtable
  top : Rtable
  unused : Addr

/-- The loop of `ospf6_route_lookup_identical`. -/
def identicalFrom (s : Rtable) (r : Route) : Nat → Option Addr → Except Abort (Option Addr)
  | _, none => .ok none
  | 0, some _ => .error .assertion
  | n + 1, some c =>
    if ¬ s.live c then .error .assertion
    else if isIdentical (s.route c) r then .ok (some c)
    else identicalFrom s r n (s.next c)

/-- `ospf6_route_lookup_identical`. The loop is cut off behind as many routes as the table counts. -/
def routeLookupIdentical (s : Rtable) (r : Route) : Except Abort (Rtable × Option Addr) := do
  let (s, target) := routeLookup s r.dest
  let target ← identicalFrom s r s.count target
  pure (s, target)

/-- A call of a hook of the table of the area, with the route it is called for. -/
inductive HookCall where
  | add (r : Route) (f : Flags)
  | remove (r : Route)

/-- `ospf6_area_route_hook_add` with `ospf6_route_copy`, and `ospf6_area_route_hook_remove`. -/
def routeHook (x : Rtable × Addr) : HookCall → Except Abort (Rtable × Addr)
  | .add r f => do
    let (top, _) ← routeAdd (routeCreate x.1 x.2 r f) x.2
    pure (top, x.2 + 1)
  | .remove r => do
    let (top, copy) ← routeLookupIdentical x.1 r
    match copy with
    | none => pure (top, x.2)
    | some c => do
      let top ← routeRemove top c
      pure (top, x.2)

/-- `ospf6_route_add` to the table of the area, which calls its hook unless it has the route already. -/
def areaRouteAdd (hook : Bool) (t : Tables) (r : Route) : Except Abort Tables := do
  let (area, a) ← routeAdd (routeCreate t.area t.unused r default) t.unused
  if hook ∧ a = t.unused then do
    let (top, unused) ← routeHook (t.top, t.unused + 1) (.add (area.route a) (area.flag a))
    pure ⟨area, top, unused⟩
  else pure ⟨area, t.top, t.unused + 1⟩

/-- `OSPF6_ROUTE_REMOVE`, and no flag. -/
def Flags.marked : Flags := { change := false, add := false, remove := true, best := false, wasRemoved := false }

def Flags.none : Flags := { change := false, add := false, remove := false, best := false, wasRemoved := false }

/-- A flag that says that a route was there before, and is there again, goes along with the mark. -/
def Flags.again (f : Flags) : Flags := if f.remove && f.add then { f with remove := false, add := false } else f

/-- The body of the first loop of the calculation. -/
def markRoute (x : Rtable × Unit) (a : Addr) : Except Abort (Rtable × Unit) := .ok (setFlag x.1 a fun _ => .marked, x.2)

def setHostnum (s : Rtable) (a : Addr) (hostnum : UInt32) : Rtable :=
  { s with route := Function.update s.route a { s.route a with hostnum } }

/-- The body of the last loop of the calculation. -/
def settleRoute (hostnum : UInt32) (x : Rtable × (Rtable × Addr)) (a : Addr) :
    Except Abort (Rtable × (Rtable × Addr)) := do
  let s := setFlag x.1 a Flags.again
  let (s, top) ←
    if (s.flag a).remove then do
      let s ← routeRemove s a
      let top ← routeHook x.2 (.remove (s.route a))
      pure (s, top)
    else if (s.flag a).add || (s.flag a).change then do
      let s := setHostnum s a hostnum
      let top ← routeHook x.2 (.add (s.route a) (s.flag a))
      pure (s, top)
    else pure (s, x.2)
  pure (setFlag s a fun _ => .none, top)

/-- What `ospf6_intra_prefix_lsa_add` reads besides the LSA: the number of the area, the table of the last SPF
calculation, and which LSAs are too old. -/
structure View where
  areaId : UInt32
  spfTable : List Bool → Option Route
  maxage : Spf.SpfLsa → Bool

/-- The routes for the prefixes of an LSA. -/
def lsaRoutes (v : View) (lsa : Spf.SpfLsa) : Option (List Route) :=
  if v.maxage lsa then some [] else (Prefixes.intraPrefixLsaAdd v.areaId v.spfTable lsa).result

/-- `ospf6_intra_prefix_lsa_add`. -/
def intraPrefixLsaAdd (hook : Bool) (v : View) (t : Tables) (lsa : Spf.SpfLsa) : Except Abort Tables := do
  let rs ← need (lsaRoutes v lsa)
  rs.foldlM (areaRouteAdd hook) t

/-- `ospf6_intra_route_calculation`, with the Intra-Area-Prefix-LSAs of the area. -/
def intraRouteCalculation (v : View) (lsas : List Spf.SpfLsa) (hostnum : UInt32) (t : Tables) : Except Abort Tables := do
  let (area, _) ← forEach markRoute (t.area, ())
  let t ← lsas.foldlM (intraPrefixLsaAdd false v) { t with area }
  let (area, top, unused) ← forEach (settleRoute hostnum) (t.area, (t.top, t.unused))
  pure ⟨area, top, unused⟩

/-- What happens to the two tables: an Intra-Area-Prefix-LSA comes into the database of the area, or the routes are
calculated. -/
inductive TableEvent where
  | install (v : View) (lsa : Spf.SpfLsa)
  | calculate (v : View) (lsas : List Spf.SpfLsa) (hostnum : UInt32)

def tables : Machine Tables TableEvent Empty where
  step t
    | .install v lsa => ⟨[], (intraPrefixLsaAdd true v t lsa).toOption⟩
    | .calculate v lsas hostnum => ⟨[], (intraRouteCalculation v lsas hostnum t).toOption⟩

/-- The tables of a new area. -/
def noRoutes : Tables := ⟨empty, empty, 0⟩

/-- What `ospf6_route_is_identical` compares. -/
def Route.said (r : Route) : Route := { r with hostnum := 0 }

/-- The routes of a table with a prefix, as far as they are compared. -/
def contents (s : Rtable) (p : List Bool) : List Route := (routesOf s p).map fun a => (s.route a).said

theorem isIdentical_iff {ra rb : Route} : isIdentical ra rb = true ↔ ra.said = rb.said := by
  obtain ⟨type, dest, path, nexthop, hostnum⟩ := ra
  obtain ⟨type', dest', path', nexthop', hostnum'⟩ := rb
  simp [isIdentical, Route.said, and_assoc]

/-- A route that the last loop of the calculation leaves in the table. -/
def Flags.stays (f : Flags) : Bool := f.add || !f.remove

/-- A route for a prefix of an Intra-Area-Prefix-LSA. -/
def Route.Intra (r : Route) : Prop := r.type = 2 ∧ r.path.type = 1

theorem Route.Intra.typed {r : Route} (h : r.Intra) : r.path.Typed := by
  rw [Path.Typed, h.2]
  decide

theorem Route.Intra.of_said {r r' : Route} (h : r.Intra) (hsaid : r'.said = r.said) : r'.Intra := by
  obtain ⟨type, dest, path, nexthop, hostnum⟩ := r
  obtain ⟨type', dest', path', nexthop', hostnum'⟩ := r'
  simp only [Route.said, Route.mk.injEq] at hsaid
  obtain ⟨rfl, rfl, rfl, rfl, -⟩ := hsaid
  exact h

theorem stays_eq (f : Flags) : f.stays = f.sansBest.stays := rfl

theorem stays_sansBest {f f' : Flags} (h : f'.sansBest = f.sansBest) : f'.stays = f.stays := by
  rw [stays_eq, stays_eq f, h]

theorem said_path (r : Route) : r.said.path = r.path := rfl

theorem said_dest (r : Route) : r.said.dest = r.dest := rfl

theorem Shape.contents {s : Rtable} {gs : List (List Bool × List Addr)} (h : Shape s gs) (p : List Bool) :
    contents s p = (groupAt gs p).map fun a => (s.route a).said := by
  rw [Routes.contents, h.routesOf]

theorem Shape.mem_groupAt {s : Rtable} {gs : List (List Bool × List Addr)} (h : Shape s gs) {p : List Bool} {a : Addr} :
    a ∈ groupAt gs p ↔ a ∈ chain gs ∧ (s.route a).dest = p := by
  rw [h.groupAt_eq, List.mem_filter, beq_iff_eq]

section Pass

variable {s : Rtable} {gs : List (List Bool × List Addr)} {cur : Option Addr} {a : Addr} {r : Route} {added : List Route}

theorem Rep.setFlag (h : Rep s cur gs) (a : Addr) (F : Flags → Flags) : Rep (setFlag s a F) cur gs :=
  ⟨⟨h.kept, h.stored, h.info, h.nonempty, h.dest, h.linked, h.nodup, h.count, h.live, h.inTable, h.rnode, h.lock_pos⟩,
    h.cur_live, h.lock⟩

/-- A route has been added: it stands between the parts of its group, or the one found there that says the same does. -/
structure Placed (s : Rtable) (gs : List (List Bool × List Addr)) (a : Addr) (r : Route) (before : List Addr)
    (old : Option Addr) (behind : List Addr) (s' : Rtable) (b : Addr) (gs' : List (List Bool × List Addr)) : Prop where
  rep : Rep s' none gs'
  was : groupAt gs r.dest = before ++ (old.toList ++ behind)
  is : groupAt gs' r.dest = before ++ b :: behind
  others : ∀ p, p ≠ r.dest → groupAt gs' p = groupAt gs p
  passed : ∀ c ∈ before, (s.route c).type = r.type → isSameOrigin (s.route c) r = false
  found : ∀ o ∈ old, (s.route o).type = r.type ∧ isSameOrigin (s.route o) r = true
  stopped : old = none → ∀ c ∈ behind.head?, isSameOrigin (s.route c) r = false
  route : ∀ c ∈ chain gs, s'.route c = s.route c
  said : (s'.route b).said = r.said
  flag : ∀ c ∈ chain gs, c ≠ b → (s'.flag c).sansBest = (s.flag c).sansBest
  live : ∀ c, s'.live c = true → s.live c = true ∨ c = a
  /-- The new route itself, if no route says the same. -/
  own : b = a ∧ s'.route b = r ∧ (∀ o ∈ old, (s.route o).said ≠ r.said) ∨ b ∈ old

theorem Rep.placed (h : Rep s none gs) (hintra : ∀ c ∈ chain gs, (s.route c).Intra) (ha : s.live a = false)
    (hr : r.Intra) (f : Flags) :
    ∃ s' b gs' before old behind, routeAdd (routeCreate s a r f) a = .ok (s', b) ∧
      Placed s gs a r before old behind s' b gs' ∧
      (s'.flag b).sansBest = (if b ∈ old then { (s.flag b).sansBest with add := true }
        else if old = none then { f.sansBest with add := true } else { f.sansBest with change := true }) := by
  obtain ⟨hrep, hfresh⟩ := h.create ha r f
  have hroute : (routeCreate s a r f).route a = r := by simp [routeCreate]
  have hflag : (routeCreate s a r f).flag a = f := by simp [routeCreate]
  have hne : ∀ c ∈ chain gs, c ≠ a := by
    rintro c hc rfl
    exact hfresh.not_mem hrep.toShape hc
  have hroutes : ∀ c ∈ chain gs, (routeCreate s a r f).route c = s.route c := fun c hc =>
    Function.update_of_ne (hne c hc) _ _
  have hflags : ∀ c ∈ chain gs, (routeCreate s a r f).flag c = s.flag c := fun c hc =>
    Function.update_of_ne (hne c hc) _ _
  obtain ⟨herror, hok⟩ := hrep.add hfresh
  rw [hroute] at herror hok
  cases hs : groupSearch (routeCreate s a r f).route r (groupAt gs r.dest) with
  | error e =>
      obtain ⟨-, c, hc, hnot⟩ := groupSearch_error hs
      have hc' := (h.mem_groupAt.mp hc).1
      rw [hroutes c hc'] at hnot
      exact absurd ⟨(hintra c hc').typed, hr.typed⟩ hnot
  | ok x =>
      obtain ⟨before, old, behind⟩ := x
      obtain ⟨s', b, gs', hadd, hadded⟩ := hok before old behind hs
      have hsearch := searched_of_groupSearch hs
      have hgroup := groupSearch_eq hs
      have hchain : ∀ c, c ∈ before ∨ c ∈ old → c ∈ chain gs := by
        intro c hc
        refine (h.mem_groupAt (p := r.dest)).mp ?_ |>.1
        rw [hgroup]
        simp only [List.mem_append, Option.mem_toList]
        exact hc.imp id .inl
      have hplaced : groupAt gs' r.dest = before ++ b :: behind → (s'.route b).said = r.said →
          (b = a ∧ s'.route b = r ∧ (∀ o ∈ old, (s.route o).said ≠ r.said) ∨ b ∈ old) →
          Placed s gs a r before old behind s' b gs' := fun his hsaid hown =>
        { rep := hadded.rep
          was := hgroup
          is := his
          others := fun p hp => hadded.others p (by rw [hroute]; exact hp)
          passed := fun c hc htype => by
            rw [← hroutes c (hchain c (.inl hc))] at htype ⊢
            exact (hsearch.passed c hc htype).1
          found := fun o ho => by
            rw [← hroutes o (hchain o (.inr ho))]
            exact hsearch.same o ho
          stopped := fun hold c hc => by
            have hmem : c ∈ chain gs := by
              refine (h.mem_groupAt (p := r.dest)).mp ?_ |>.1
              rw [hgroup]
              exact List.mem_append_right _ (List.mem_append_right _ (List.mem_of_mem_head? hc))
            rw [← hroutes c hmem]
            exact (hsearch.stop hold c hc).2.1
          route := fun c hc => by rw [hadded.route, hroutes c hc]
          said := hsaid
          flag := fun c hc hcb => by rw [hadded.flag c hcb, hflags c hc]
          live := fun c hc => by
            by_cases hca : c = a
            · exact .inr hca
            · exact .inl (by simpa [routeCreate, Function.update_of_ne hca] using hadded.live c hc)
          own := hown }
      refine ⟨s', b, gs', before, old, behind, hadd, ?_⟩
      cases old with
      | none =>
          obtain ⟨rfl, hat, hnew⟩ := hadded.new rfl
          rw [hroute] at hat
          have hb : s'.route b = r := by rw [hadded.route, hroute]
          refine ⟨hplaced hat (by rw [hb]) (.inl ⟨rfl, hb, by simp⟩), ?_⟩
          rw [if_neg (by simp), if_pos rfl, hnew, hflag]
      | some o =>
          have ho := hroutes o (hchain o (.inr rfl))
          cases hid : isIdentical ((routeCreate s a r f).route o) ((routeCreate s a r f).route a) with
          | true =>
              obtain ⟨rfl, hat, hadd'⟩ := hadded.same o rfl hid
              rw [hroute] at hat hid
              refine ⟨hplaced (hat.trans hgroup) ?_ (.inr rfl), ?_⟩
              · rw [hadded.route]
                exact isIdentical_iff.mp hid
              · rw [if_pos (show b ∈ some b from rfl), hadd', hflags b (hchain b (.inr rfl))]
          | false =>
              obtain ⟨rfl, hat, hchange⟩ := hadded.changed o rfl hid
              rw [hroute] at hat hid
              rw [ho] at hid
              have hb : s'.route b = r := by rw [hadded.route, hroute]
              have hob : b ∉ some o := fun hbo => hne o (hchain o (.inr rfl)) (Option.some.inj hbo)
              refine ⟨hplaced hat (by rw [hb]) (.inl ⟨rfl, hb, ?_⟩), ?_⟩
              · rintro o' ho' hsaid
                obtain rfl := Option.some.inj ho'
                rw [isIdentical_iff.mpr hsaid] at hid
                exact absurd hid (by simp)
              · rw [if_neg hob, if_neg (by simp), hchange, hflag]

section Placed

variable {before behind : List Addr} {old : Option Addr} {s' : Rtable} {b : Addr} {gs' : List (List Bool × List Addr)}

theorem Placed.mem (h : Placed s gs a r before old behind s' b gs') (hrep : Rep s none gs) {c : Addr}
    (hc : c ∈ before ∨ c ∈ old ∨ c ∈ behind) : c ∈ chain gs := by
  refine (hrep.mem_groupAt (p := r.dest)).mp ?_ |>.1
  rw [h.was, List.mem_append, List.mem_append, Option.mem_toList]
  exact hc

theorem Placed.ne (h : Placed s gs a r before old behind s' b gs') {c : Addr} (hc : c ∈ before ∨ c ∈ behind) : c ≠ b := by
  have hnodup : (before ++ b :: behind).Nodup := by
    rw [← h.is, h.rep.groupAt_eq]
    exact h.rep.nodup.filter _
  rintro rfl
  exact hc.elim (not_mem_of_nodup hnodup).1 (not_mem_of_nodup hnodup).2

/-- The routes that are in the table then are the new one and some of those before. -/
theorem Placed.mem_chain (h : Placed s gs a r before old behind s' b gs') (hrep : Rep s none gs) {c : Addr}
    (hc : c ∈ chain gs') : c = b ∨ c ∈ chain gs := by
  by_cases hdest : (s'.route c).dest = r.dest
  · have hat := h.rep.mem_groupAt.mpr ⟨hc, hdest⟩
    rw [h.is, List.mem_append, List.mem_cons] at hat
    obtain hat | rfl | hat := hat
    · exact .inr (h.mem hrep (.inl hat))
    · exact .inl rfl
    · exact .inr (h.mem hrep (.inr (.inr hat)))
  · have hat : c ∈ groupAt gs (s'.route c).dest := h.others _ hdest ▸ h.rep.mem_groupAt.mpr ⟨hc, rfl⟩
    exact .inr (hrep.mem_groupAt.mp hat).1

theorem Placed.intra (h : Placed s gs a r before old behind s' b gs') (hrep : Rep s none gs)
    (hintra : ∀ c ∈ chain gs, (s.route c).Intra) (hr : r.Intra) : ∀ c ∈ chain gs', (s'.route c).Intra := by
  intro c hc
  obtain rfl | hc := h.mem_chain hrep hc
  · exact hr.of_said h.said
  · rw [h.route c hc]
    exact hintra c hc

/-- What routes other than the new one say. -/
theorem Placed.said_eq (h : Placed s gs a r before old behind s' b gs') {l : List Addr} (hl : ∀ c ∈ l, c ∈ chain gs) :
    (l.map fun c => (s'.route c).said) = l.map fun c => (s.route c).said :=
  List.map_congr_left fun c hc => by rw [h.route c (hl c hc)]

theorem Placed.stays_eq (h : Placed s gs a r before old behind s' b gs') {l : List Addr}
    (hl : ∀ c ∈ l, c ∈ chain gs ∧ c ≠ b) :
    ((l.filter fun c => (s'.flag c).stays).map fun c => (s'.route c).said) =
      (l.filter fun c => (s.flag c).stays).map fun c => (s.route c).said := by
  have hfilter : (l.filter fun c => (s'.flag c).stays) = l.filter fun c => (s.flag c).stays :=
    List.filter_congr fun c hc => stays_sansBest (h.flag c (hl c hc).1 (hl c hc).2)
  rw [hfilter]
  exact h.said_eq fun c hc => (hl c (List.mem_of_mem_filter hc)).1

end Placed

/-- The routes that are to stay are those that have been added, and no path is without a type. -/
structure Passed (s : Rtable) (gs : List (List Bool × List Addr)) (added : List Route) : Prop where
  rep : Rep s none gs
  intra : ∀ a ∈ chain gs, (s.route a).Intra
  stays : ∀ p, (((groupAt gs p).filter fun a => (s.flag a).stays).map fun a => (s.route a).said).Perm
    ((added.filter (·.dest == p)).map Route.said)

/-- A mark on every route. -/
theorem Rep.mark (h : Rep s none gs) (hintra : ∀ a ∈ chain gs, (s.route a).Intra) :
    ∃ s' gs', Routes.forEach markRoute (s, ()) = .ok (s', ()) ∧
      Passed s' gs' [] ∧ s'.route = s.route ∧ chain gs' = chain gs ∧ (∀ a ∈ chain gs', s'.flag a = .marked) ∧
      ∀ c, s'.live c = true → s.live c = true := by
  have hforEach := Rep.forEach (v := markRoute)
    (I := fun l m route flag (_ : Unit) => l ++ m = chain gs ∧ route = s.route ∧ ∀ c ∈ l, flag c = .marked)
    (fun l a m s₁ gs₁ e h₁ hgs₁ hI => ?_) h (e := ()) ⟨rfl, rfl, by simp⟩
  · obtain ⟨s', u, gs', hmark, hrep, ⟨hchain, hroute, hflag⟩, hlive⟩ := hforEach
    rw [List.append_nil] at hchain
    refine ⟨s', gs', hmark, ⟨hrep, fun a ha => ?_, fun p => ?_⟩, hroute, hchain, hflag, hlive⟩
    · rw [hroute]
      exact hintra a (hchain ▸ ha)
    · have hnone : ((groupAt gs' p).filter fun a => (s'.flag a).stays) = [] := by
        refine List.filter_eq_nil_iff.mpr fun a ha => ?_
        rw [hflag a (hrep.mem_groupAt.mp ha).1]
        decide
      rw [hnone]
      exact .nil
  · obtain ⟨hchain, hroute, hflag⟩ := hI
    refine ⟨_, (), gs₁, l ++ [a], rfl, h₁.setFlag a _,
      by simp [hgs₁], rfl, ⟨by simpa using hchain, hroute, fun c hc => ?_⟩,
      fun c hc => hc⟩
    obtain hc | hc := List.mem_append.mp hc
    · by_cases hca : c = a
      · subst hca
        exact Function.update_self ..
      · exact (Function.update_of_ne hca _ _).trans (hflag c hc)
    · obtain rfl := List.mem_singleton.mp hc
      exact Function.update_self ..

/-- A route that stays has been added, so none of another origin is in the way of one that has not. -/
theorem Passed.origin_ne (h : Passed s gs added) (hnew : ∀ r' ∈ added, r'.dest = r.dest → r'.path.origin ≠ r.path.origin)
    {c : Addr} (hc : c ∈ groupAt gs r.dest) (hstays : (s.flag c).stays = true) :
    (s.route c).path.origin ≠ r.path.origin := by
  have hmem : (s.route c).said ∈ ((groupAt gs r.dest).filter fun a => (s.flag a).stays).map fun a => (s.route a).said :=
    List.mem_map_of_mem (List.mem_filter.mpr ⟨hc, hstays⟩)
  obtain ⟨r', hr', hsaid⟩ := List.mem_map.mp ((h.stays r.dest).mem_iff.mp hmem)
  obtain ⟨hadded, hdest⟩ := List.mem_filter.mp hr'
  have hpath : r'.path = (s.route c).path := by rw [← said_path, hsaid, said_path]
  rw [← hpath]
  exact hnew r' hadded (beq_iff_eq.mp hdest)

/-- A route whose origin has not been added yet comes to stay: as itself, or as one that says the same. -/
theorem Passed.add (h : Passed s gs added) (ha : s.live a = false) (hr : r.Intra)
    (hnew : ∀ r' ∈ added, r'.dest = r.dest → r'.path.origin ≠ r.path.origin) :
    ∃ s' b gs', routeAdd (routeCreate s a r default) a = .ok (s', b) ∧ Passed s' gs' (added ++ [r]) ∧
      ∀ c, s'.live c = true → s.live c = true ∨ c = a := by
  obtain ⟨s', b, gs', before, old, behind, hadd, hplaced, hflag⟩ := h.rep.placed h.intra ha hr default
  have hstays : (s'.flag b).stays = true := by
    rw [Routes.stays_eq, hflag]
    split_ifs <;> rfl
  refine ⟨s', b, gs', hadd, ⟨hplaced.rep, hplaced.intra h.rep h.intra hr, fun p => ?_⟩, hplaced.live⟩
  by_cases hp : p = r.dest
  · subst hp
    have hdropped : old.toList.filter (fun c => (s.flag c).stays) = [] := by
      refine List.filter_eq_nil_iff.mpr fun o ho hostays => ?_
      have hmem : o ∈ groupAt gs r.dest := by
        rw [hplaced.was]
        exact List.mem_append_right _ (List.mem_append_left _ ho)
      exact h.origin_ne hnew hmem hostays (beq_iff_eq.mp (hplaced.found o (Option.mem_toList.mp ho)).2)
    have hbefore := hplaced.stays_eq (l := before) fun c hc => ⟨hplaced.mem h.rep (.inl hc), hplaced.ne (.inl hc)⟩
    have hbehind := hplaced.stays_eq (l := behind) fun c hc => ⟨hplaced.mem h.rep (.inr (.inr hc)), hplaced.ne (.inr hc)⟩
    have hwas := h.stays r.dest
    rw [hplaced.was, List.filter_append, List.filter_append, hdropped, List.nil_append, List.map_append] at hwas
    have hlast : ([r].filter (·.dest == r.dest)).map Route.said = [r.said] := by simp
    have hcons : (b :: behind).filter (fun c => (s'.flag c).stays) = b :: behind.filter fun c => (s'.flag c).stays :=
      List.filter_cons_of_pos hstays
    rw [hplaced.is, List.filter_append, hcons, List.map_append, List.map_cons, hbefore, hbehind, hplaced.said,
      List.filter_append, List.map_append, hlast]
    exact List.perm_middle.trans ((hwas.cons _).trans (List.perm_append_singleton _ _).symm)
  · have hlast : ([r].filter (·.dest == p)) = [] := by simpa using Ne.symm hp
    rw [hplaced.others p hp, List.filter_append, hlast, List.append_nil, hplaced.stays_eq fun c hc => ⟨?_, ?_⟩]
    · exact h.stays p
    · exact (h.rep.mem_groupAt.mp hc).1
    · rintro rfl
      have hdest : (s'.route c).dest = r.dest := by rw [← said_dest, hplaced.said, said_dest]
      rw [hplaced.route c (h.rep.mem_groupAt.mp hc).1] at hdest
      exact hp ((h.rep.mem_groupAt.mp hc).2.symm.trans hdest)

end Pass

/-- No address from here on has been given away. -/
def Unused (s : Rtable) (n : Addr) : Prop := ∀ a, n ≤ a → s.live a = false

/-- No two routes with one prefix have the same origin. -/
def Distinct (rs : List Route) : Prop := rs.Pairwise fun r r' => r.dest = r'.dest → r.path.origin ≠ r'.path.origin

/-- All routes are added once more, with the hook switched off. -/
theorem Passed.addAll {t : Tables} {gs : List (List Bool × List Addr)} {added rs : List Route} (h : Passed t.area gs added)
    (hunused : Unused t.area t.unused) (hrs : ∀ r ∈ rs, r.Intra) (hdistinct : Distinct (added ++ rs)) :
    ∃ t' gs', rs.foldlM (areaRouteAdd false) t = .ok t' ∧ Passed t'.area gs' (added ++ rs) ∧ t'.top = t.top ∧
      Unused t'.area t'.unused ∧ t.unused ≤ t'.unused := by
  induction rs generalizing t gs added with
  | nil => exact ⟨t, gs, rfl, by simpa using h, rfl, hunused, le_rfl⟩
  | cons r rs ih =>
      obtain ⟨s', b, gs', hadd, hpassed, hlive⟩ := h.add (hunused _ le_rfl) (hrs r (by simp)) fun r' hr' hdest =>
        (List.pairwise_append.mp hdistinct).2.2 r' hr' r (by simp) hdest
      have hstep : areaRouteAdd false t r = .ok ⟨s', t.top, t.unused + 1⟩ := by
        simp [areaRouteAdd, hadd, bind, Except.bind, pure, Except.pure]
      have hunused₁ : Unused s' (t.unused + 1) := by
        refine fun c hc => Bool.eq_false_iff.mpr fun hlc => ?_
        obtain hlc | hcu := hlive c hlc
        · exact absurd (hlc.symm.trans (hunused c ((Nat.le_succ _).trans hc))) (by simp)
        · rw [hcu] at hc
          exact absurd hc (Nat.not_succ_le_self _)
      obtain ⟨t', gs'', hfold, hpassed', htop, hunused', hle⟩ := ih (t := ⟨s', t.top, t.unused + 1⟩) hpassed hunused₁
        (fun r' hr' => hrs r' (by simp [hr'])) (by simpa using hdistinct)
      refine ⟨t', gs'', ?_, by simpa using hpassed', htop, hunused', (Nat.le_succ _).trans hle⟩
      rw [List.foldlM_cons, hstep]
      exact hfold

section Settle

variable {s : Rtable} {gs : List (List Bool × List Addr)} {cur : Option Addr}

/-- The call of a hook for a route with such flags. -/
def hookCalls (hostnum : UInt32) (f : Flags) (r : Route) : List HookCall :=
  if f.again.remove then [.remove r]
  else if f.again.add || f.again.change then [.add { r with hostnum } f.again]
  else []

theorem again_remove (f : Flags) : f.again.remove = !f.stays := by
  obtain ⟨change, add, remove, best, wasRemoved⟩ := f
  cases add <;> cases remove <;> rfl

theorem Rep.setHostnum (h : Rep s cur gs) (a : Addr) (hostnum : UInt32) : Rep (setHostnum s a hostnum) cur gs := by
  have hdest : ∀ c, ((Routes.setHostnum s a hostnum).route c).dest = (s.route c).dest := by
    intro c
    by_cases hca : c = a
    · subst hca
      simp [Routes.setHostnum]
    · simp [Routes.setHostnum, Function.update_of_ne hca]
  exact ⟨⟨h.kept, h.stored, h.info, h.nonempty, fun g hg c hc => (hdest c).trans (h.dest g hg c hc), h.linked, h.nodup,
    h.count, h.live, h.inTable, fun c hc => (h.rnode c hc).trans (congrArg some (hdest c).symm), h.lock_pos⟩, h.cur_live,
    h.lock⟩

/-- The last loop of the calculation leaves the routes that stay, and calls the hooks for the others and for those that
were not there before. `T` is about the routes the loop has seen and the table that the hooks work on. -/
theorem Rep.settle (h : Rep s none gs) (hostnum : UInt32) {T : List Addr → Rtable × Addr → Prop}
    (hT : ∀ l a m e f, chain gs = l ++ a :: m → f.sansBest = (s.flag a).sansBest → T l e →
      ∃ e', (hookCalls hostnum f (s.route a)).foldlM routeHook e = .ok e' ∧ T (l ++ [a]) e')
    {e : Rtable × Addr} (he : T [] e) :
    ∃ s' e' gs', Routes.forEach (settleRoute hostnum) (s, e) = .ok (s', e') ∧ Rep s' none gs' ∧
      chain gs' = (chain gs).filter (fun a => (s.flag a).stays) ∧ (∀ a, (s'.route a).said = (s.route a).said) ∧
      T (chain gs) e' ∧ ∀ c, s'.live c = true → s.live c = true := by
  have hforEach := Rep.forEach (v := settleRoute hostnum)
    (I := fun l m route flag e => ∃ k, chain gs = k ++ m ∧ l = k.filter (fun a => (s.flag a).stays) ∧ T k e ∧
      (∀ a, (route a).said = (s.route a).said) ∧
      ∀ c ∈ m, route c = s.route c ∧ (flag c).sansBest = (s.flag c).sansBest)
    (fun l a m s₁ gs₁ e h₁ hgs₁ hI => ?_) h (e := e) ⟨[], rfl, rfl, he, fun _ => rfl, fun _ _ => ⟨rfl, rfl⟩⟩
  · obtain ⟨s', e', gs', hloop, hrep, ⟨k, hk, hgs', hTk, hsaid, -⟩, hlive⟩ := hforEach
    rw [List.append_nil] at hk
    rw [← hk] at hgs' hTk
    exact ⟨s', e', gs', hloop, hrep, hgs', hsaid, hTk, hlive⟩
  · obtain ⟨k, hk, rfl, hTk, hsaid, hm⟩ := hI
    obtain ⟨hroute, hflag⟩ := hm a List.mem_cons_self
    have hnodup := h₁.nodup
    rw [hgs₁] at hnodup
    have hne : ∀ c ∈ m, c ≠ a := by
      rintro c hc rfl
      exact (not_mem_of_nodup hnodup).2 hc
    obtain ⟨e', hcalls, hTe'⟩ := hT k a m e (s₁.flag a) hk hflag hTk
    have hrep₂ := h₁.setFlag a Flags.again
    have hflag₂ : (Routes.setFlag s₁ a Flags.again).flag a = (s₁.flag a).again := Function.update_self ..
    have hrest : ∀ c ∈ m, ((Routes.setFlag s₁ a Flags.again).flag c).sansBest = (s.flag c).sansBest := fun c hc =>
      (congrArg Flags.sansBest (Function.update_of_ne (hne c hc) _ _)).trans (hm c (List.mem_cons_of_mem a hc)).2
    have hstays : (s₁.flag a).stays = (s.flag a).stays := stays_sansBest hflag
    have hkept : (k ++ [a]).filter (fun c => (s.flag c).stays) =
        k.filter (fun c => (s.flag c).stays) ++ if (s.flag a).stays then [a] else [] := by
      rw [List.filter_append, List.filter_singleton, Bool.cond_eq_ite]
    cases hstay : (s.flag a).stays with
    | false =>
        have hremove : (s₁.flag a).again.remove = true := by rw [again_remove, hstays, hstay, Bool.not_false]
        obtain ⟨s₃, gs₃, hrem, hrep₃, hgs₃, hnext, hroute₃, hflag₃, hlive⟩ := hrep₂.remove hgs₁
        have hcall : routeHook e (.remove (s.route a)) = .ok e' := by
          rw [hookCalls, if_pos hremove] at hcalls
          simpa only [List.foldlM_cons, List.foldlM_nil, bind_pure] using hcalls
        refine ⟨Routes.setFlag s₃ a fun _ => .none, e', gs₃, _, ?_, hrep₃.setFlag a _, hgs₃, hnext,
          ⟨k ++ [a], by simpa using hk,
          ?_, hTe', fun c => ?_, fun c hc => ⟨?_, ?_⟩⟩, hlive⟩
        · have hroutea : s₃.route a = s.route a := by rw [hroute₃]; exact hroute
          simp only [settleRoute, hflag₂, hremove, if_true, hrem, bind, Except.bind, hroutea, hcall]
          rfl
        · rw [hkept, hstay]
          simp
        · rw [show (Routes.setFlag s₃ a fun _ => Flags.none).route = s₃.route from rfl, hroute₃]
          exact hsaid c
        · rw [show (Routes.setFlag s₃ a fun _ => Flags.none).route = s₃.route from rfl, hroute₃]
          exact (hm c (List.mem_cons_of_mem a hc)).1
        · rw [show (Routes.setFlag s₃ a fun _ => Flags.none).flag c = s₃.flag c from Function.update_of_ne (hne c hc) _ _,
            hflag₃ c (hne c hc)]
          exact hrest c hc
    | true =>
        have hremove : (s₁.flag a).again.remove = false := by rw [again_remove, hstays, hstay, Bool.not_true]
        by_cases hnew : ((s₁.flag a).again.add || (s₁.flag a).again.change) = true
        · have hrep₃ := hrep₂.setHostnum a hostnum
          have hroutea : (Routes.setHostnum (Routes.setFlag s₁ a Flags.again) a hostnum).route a =
              { s.route a with hostnum } := (Function.update_self ..).trans (by rw [← hroute]; rfl)
          have hroutes : ∀ c, c ≠ a →
              (Routes.setHostnum (Routes.setFlag s₁ a Flags.again) a hostnum).route c = s₁.route c := fun c hc =>
            Function.update_of_ne hc _ _
          have hcall : routeHook e (.add { s.route a with hostnum } (s₁.flag a).again) = .ok e' := by
            rw [hookCalls, if_neg (by simp [hremove]), if_pos hnew] at hcalls
            simpa only [List.foldlM_cons, List.foldlM_nil, bind_pure] using hcalls
          refine ⟨Routes.setFlag (Routes.setHostnum (Routes.setFlag s₁ a Flags.again) a hostnum) a fun _ => .none,
            e', gs₁, _, ?_,
            hrep₃.setFlag a _, ?_, rfl, ⟨k ++ [a], by simpa using hk, rfl, hTe', fun c => ?_, fun c hc => ⟨?_, ?_⟩⟩,
            fun c hc => hc⟩
          · have hflaga : (Routes.setHostnum (Routes.setFlag s₁ a Flags.again) a hostnum).flag a =
                (s₁.flag a).again := hflag₂
            simp only [settleRoute, hflag₂, hremove, Bool.false_eq_true, if_false, hnew, if_true, bind,
              Except.bind, hroutea,
              hflaga, hcall]
            rfl
          · rw [hgs₁, hkept, hstay]
            simp
          · by_cases hca : c = a
            · subst hca
              exact (congrArg Route.said hroutea).trans rfl
            · exact (congrArg Route.said (hroutes c hca)).trans (hsaid c)
          · exact (hroutes c (hne c hc)).trans (hm c (List.mem_cons_of_mem a hc)).1
          · exact (congrArg Flags.sansBest (Function.update_of_ne (hne c hc) _ _)).trans (hrest c hc)
        · have hcall : e' = e := by
            rw [hookCalls, if_neg (by simp [hremove]), if_neg hnew] at hcalls
            exact (Except.ok.inj hcalls).symm
          subst hcall
          refine ⟨Routes.setFlag (Routes.setFlag s₁ a Flags.again) a fun _ => .none, _, gs₁, _, ?_,
            hrep₂.setFlag a _, ?_, rfl,
            ⟨k ++ [a], by simpa using hk, rfl, hTe', hsaid, fun c hc => ⟨(hm c (List.mem_cons_of_mem a hc)).1, ?_⟩⟩,
            fun c hc => hc⟩
          · simp only [settleRoute, hflag₂, hremove, Bool.false_eq_true, if_false, hnew, bind, Except.bind]
            rfl
          · rw [hgs₁, hkept, hstay]
            simp
          · exact (congrArg Flags.sansBest (Function.update_of_ne (hne c hc) _ _)).trans (hrest c hc)

end Settle

section Hooks

variable {s : Rtable} {gs : List (List Bool × List Addr)} {r : Route}

/-- A table of routes for prefixes, and an address from which on none has been given away. -/
structure Sound (s : Rtable) (n : Addr) (gs : List (List Bool × List Addr)) : Prop where
  rep : Rep s none gs
  intra : ∀ a ∈ chain gs, (s.route a).Intra
  unused : Unused s n

theorem identicalFrom_eq {l m : List Addr} {n : Nat} (hlinked : Linked s.next s.prev (l ++ m))
    (hlive : ∀ c ∈ m, s.live c = true) (hn : m.length ≤ n) :
    identicalFrom s r n m.head? = .ok (m.find? fun c => isIdentical (s.route c) r) := by
  induction m generalizing l n with
  | nil => cases n <;> rfl
  | cons c m ih =>
      obtain ⟨n, rfl⟩ : ∃ k, n = k + 1 := ⟨n - 1, by simp at hn; omega⟩
      rw [List.head?_cons, identicalFrom, if_neg (by simp [hlive c (by simp)]), hlinked.neighbours.2]
      by_cases hid : isIdentical (s.route c) r = true
      · rw [if_pos hid, List.find?_cons, hid]
      · rw [if_neg hid, List.find?_cons, Bool.eq_false_iff.mpr hid]
        exact ih (l := l ++ [c]) (by simpa using hlinked) (fun d hd => hlive d (by simp [hd])) (by simpa using hn)

/-- The search comes to the first route that says the same. -/
theorem Rep.lookupIdentical (h : Rep s none gs) (r : Route) :
    ∃ s', routeLookupIdentical s r = .ok (s', (groupAt gs r.dest).find? fun c => isIdentical (s.route c) r) ∧
      Rep s' none gs ∧ s'.route = s.route ∧ s'.live = s.live := by
  obtain ⟨hrep, hfirst, hroute, -, hlive⟩ := h.lookup r.dest
  refine ⟨(routeLookup s r.dest).1, ?_, hrep, hroute, hlive⟩
  have hsearch : identicalFrom (routeLookup s r.dest).1 r (routeLookup s r.dest).1.count (routeLookup s r.dest).2 =
      .ok ((groupAt gs r.dest).find? fun c => isIdentical (s.route c) r) := by
    obtain ⟨-, -, A, M, B, -, rfl, -, -, hpw, hM⟩ := h.toShape.place r.dest
    obtain ⟨hneA, hneB⟩ := ne_of_pairwise hpw
    rw [hfirst]
    obtain ⟨rfl, -⟩ | ⟨g, rfl, hg, -⟩ := hM
    · have hat : groupAt (A ++ ([] ++ B)) r.dest = [] := by simpa [group] using groupAt_self (g := []) hneA hneB
      rw [hat]
      cases (routeLookup s r.dest).1.count <;> rfl
    · have hat : groupAt (A ++ ([(r.dest, g)] ++ B)) r.dest = g := by
        simpa [group, hg] using groupAt_self (g := g) hneA hneB
      have hchain : chain (A ++ ([(r.dest, g)] ++ B)) = chain A ++ (g ++ chain B) := by simp
      have hbehind : (chain B).find? (fun c => isIdentical (s.route c) r) = none := by
        refine List.find?_eq_none.mpr fun c hc hid => ?_
        obtain ⟨x, hx, hcx⟩ := mem_chain.mp hc
        have hdest := h.dest x (by simp [hx]) c hcx
        rw [← said_dest, isIdentical_iff.mp hid, said_dest] at hdest
        exact hneB x hx hdest.symm
      have hcount : (g ++ chain B).length ≤ (routeLookup s r.dest).1.count := by
        have hlength : (chain A ++ (g ++ chain B)).length = (chain A).length + (g ++ chain B).length := List.length_append
        rw [hrep.count, hchain, hlength]
        exact Nat.le_add_left _ _
      have hwhole := identicalFrom_eq (r := r) (l := chain A) (m := g ++ chain B) (hchain ▸ hrep.linked)
        (fun c hc => hrep.live c (by rw [hchain]; exact List.mem_append_right _ hc)) hcount
      rw [List.head?_append_of_ne_nil _ hg, hroute, List.find?_append, hbehind, Option.or_none] at hwhole
      rw [hat]
      exact hwhole
  simp only [routeLookupIdentical, hsearch]
  rfl

/-- What a removal leaves with a prefix. -/
theorem Rep.groupAt_remove {s' : Rtable} {gs' : List (List Bool × List Addr)} {a : Addr} {as bs : List Addr}
    (h : Rep s none gs) (hgs : chain gs = as ++ a :: bs) (h' : Rep s' none gs') (hgs' : chain gs' = as ++ bs)
    (hroute : s'.route = s.route) (p : List Bool) : groupAt gs' p = (groupAt gs p).erase a := by
  have hnodup := h.nodup
  rw [hgs] at hnodup
  have hchain : chain gs' = (chain gs).erase a := by
    rw [hgs', hgs, List.erase_append_right _ (not_mem_of_nodup hnodup).1, List.erase_cons_head]
  rw [h'.groupAt_eq, h.groupAt_eq, hroute, hchain, h.nodup.erase_eq_filter, (h.nodup.filter _).erase_eq_filter,
    List.filter_filter, List.filter_filter]
  exact List.filter_congr fun c _ => Bool.and_comm _ _

/-- `ospf6_area_route_hook_remove` takes one copy of the route away, if there is one. -/
theorem Sound.hookRemove {n : Addr} (h : Sound s n gs) (r : Route) :
    ∃ s' gs', routeHook (s, n) (.remove r) = .ok (s', n) ∧ Sound s' n gs' ∧
      ∀ p, contents s' p = (contents s p).erase r.said := by
  obtain ⟨s₁, hlookup, hrep, hroute, hlive⟩ := h.rep.lookupIdentical r
  have hcontents : ∀ p, contents s₁ p = contents s p := fun p => by
    rw [hrep.toShape.contents, h.rep.toShape.contents, hroute]
  cases hfind : (groupAt gs r.dest).find? fun c => isIdentical (s.route c) r with
  | none =>
      rw [hfind] at hlookup
      refine ⟨s₁, gs, ?_, ⟨hrep, fun a ha => hroute ▸ h.intra a ha, fun a ha => hlive ▸ h.unused a ha⟩, fun p => ?_⟩
      · simp only [routeHook, hlookup, bind, Except.bind]
        rfl
      · rw [hcontents, List.erase_of_not_mem]
        rw [h.rep.toShape.contents]
        intro hmem
        obtain ⟨c, hc, hsaid⟩ := List.mem_map.mp hmem
        have hdest : r.dest = p := by rw [← said_dest, ← hsaid, said_dest, (h.rep.toShape.mem_groupAt.mp hc).2]
        subst hdest
        exact List.find?_eq_none.mp hfind c hc (isIdentical_iff.mpr hsaid)
  | some c =>
      rw [hfind] at hlookup
      obtain ⟨hid, before, behind, hgroup, hbefore⟩ := List.find?_eq_some_iff_append.mp hfind
      have hsaid := isIdentical_iff.mp hid
      have hmem : c ∈ groupAt gs r.dest := by rw [hgroup]; simp
      obtain ⟨as, bs, hchain⟩ := List.append_of_mem (h.rep.toShape.mem_groupAt.mp hmem).1
      obtain ⟨s₂, gs₂, hremove, hrep₂, hgs₂, -, hroute₂, -, hlive₂⟩ := hrep.remove hchain
      have hgroups := hrep.groupAt_remove hchain hrep₂ hgs₂ hroute₂
      refine ⟨s₂, gs₂, ?_, ⟨hrep₂, fun a ha => ?_, fun a ha => ?_⟩, fun p => ?_⟩
      · simp only [routeHook, hlookup, bind, Except.bind, hremove]
        rfl
      · rw [hroute₂, hroute]
        refine h.intra a ?_
        rw [hgs₂] at ha
        rw [hchain]
        exact (List.mem_append.mp ha).elim (List.mem_append_left _) fun ha =>
          List.mem_append_right _ (List.mem_cons_of_mem _ ha)
      · refine Bool.eq_false_iff.mpr fun hla => ?_
        have hla' := hlive₂ a hla
        rw [hlive, h.unused a ha] at hla'
        exact absurd hla' (by simp)
      · rw [hrep₂.toShape.contents, h.rep.toShape.contents, hroute₂, hroute, hgroups]
        by_cases hp : p = r.dest
        · subst hp
          have hnodup : (before ++ c :: behind).Nodup := by
            rw [← hgroup, h.rep.groupAt_eq]
            exact h.rep.nodup.filter _
          have hnot : r.said ∉ before.map fun a => (s.route a).said := by
            intro hm
            obtain ⟨d, hd, hdsaid⟩ := List.mem_map.mp hm
            exact absurd (isIdentical_iff.mpr hdsaid) (by simpa using hbefore d hd)
          rw [hgroup, List.erase_append_right _ (not_mem_of_nodup hnodup).1, List.erase_cons_head, List.map_append,
            List.map_append, List.map_cons, List.erase_append_right _ hnot, hsaid, List.erase_cons_head]
        · have hc : c ∉ groupAt gs p := fun hc =>
            hp ((h.rep.toShape.mem_groupAt.mp hc).2.symm.trans (h.rep.toShape.mem_groupAt.mp hmem).2)
          rw [List.erase_of_not_mem hc, List.erase_of_not_mem]
          intro hm
          obtain ⟨d, hd, hdsaid⟩ := List.mem_map.mp hm
          have hdest : (s.route d).dest = r.dest := by rw [← said_dest, hdsaid, said_dest]
          exact hp ((h.rep.toShape.mem_groupAt.mp hd).2.symm.trans hdest)

/-- A route is put among others: it takes the place of the first one of its origin, unless one that costs more comes
before that. -/
def Put (r : Route) (l l' : List Route) : Prop :=
  ∃ before behind : List Route, ∃ old : Option Route, l = before ++ (old.toList ++ behind) ∧ l' = before ++ r :: behind ∧
    (∀ x ∈ before, x.path.origin ≠ r.path.origin) ∧ (∀ x ∈ old, x.path.origin = r.path.origin) ∧
    (old = none → ∀ x ∈ behind.head?, x.path.origin ≠ r.path.origin)

theorem Placed.put {a b : Addr} {before behind : List Addr} {old : Option Addr} {s' : Rtable}
    {gs' : List (List Bool × List Addr)} (h : Placed s gs a r before old behind s' b gs') (hrep : Rep s none gs)
    (hintra : ∀ c ∈ chain gs, (s.route c).Intra) (hr : r.Intra) :
    Put r.said (contents s r.dest) (contents s' r.dest) := by
  have hmem : ∀ {c}, c ∈ before ∨ c ∈ old ∨ c ∈ behind → c ∈ chain gs := fun hc => h.mem hrep hc
  refine ⟨before.map fun c => (s.route c).said, behind.map fun c => (s.route c).said, old.map fun c => (s.route c).said,
    ?_, ?_, fun x hx => ?_, fun x hx => ?_, fun hold x hx => ?_⟩
  · rw [hrep.toShape.contents, h.was, List.map_append, List.map_append]
    cases old <;> rfl
  · rw [h.rep.toShape.contents, h.is, List.map_append, List.map_cons, h.said, h.said_eq fun c hc => hmem (.inl hc),
      h.said_eq fun c hc => hmem (.inr (.inr hc))]
  · obtain ⟨c, hc, rfl⟩ := List.mem_map.mp hx
    exact origin_ne_iff.mpr (h.passed c hc ((hintra c (hmem (.inl hc))).1.trans hr.1.symm))
  · obtain ⟨c, hc, rfl⟩ := Option.mem_map.mp hx
    exact beq_iff_eq.mp (h.found c hc).2
  · rw [List.head?_map] at hx
    obtain ⟨c, hc, rfl⟩ := Option.mem_map.mp hx
    exact origin_ne_iff.mpr (h.stopped (Option.map_eq_none_iff.mp hold) c hc)

theorem Sound.placed {n : Addr} (h : Sound s n gs) (hr : r.Intra) (f : Flags) :
    ∃ s' b gs' before old behind, routeAdd (routeCreate s n r f) n = .ok (s', b) ∧ Sound s' (n + 1) gs' ∧
      Placed s gs n r before old behind s' b gs' ∧
      (s'.flag b).sansBest = (if b ∈ old then { (s.flag b).sansBest with add := true }
        else if old = none then { f.sansBest with add := true } else { f.sansBest with change := true }) := by
  obtain ⟨s', b, gs', before, old, behind, hadd, hplaced, hflag⟩ := h.rep.placed h.intra (h.unused n le_rfl) hr f
  refine ⟨s', b, gs', before, old, behind, hadd, ⟨hplaced.rep, hplaced.intra h.rep h.intra hr, fun c hc => ?_⟩, hplaced,
    hflag⟩
  refine Bool.eq_false_iff.mpr fun hlc => ?_
  obtain hlc | rfl := hplaced.live c hlc
  · rw [h.unused c ((Nat.le_succ n).trans hc)] at hlc
    exact absurd hlc (by simp)
  · exact absurd hc (Nat.not_succ_le_self _)

/-- A route that is created and added to a table is put there, unless there is one that says the same. -/
theorem Sound.add {n : Addr} (h : Sound s n gs) (hr : r.Intra) (f : Flags) :
    ∃ s' b gs', routeAdd (routeCreate s n r f) n = .ok (s', b) ∧ Sound s' (n + 1) gs' ∧
      Put r.said (contents s r.dest) (contents s' r.dest) ∧ (∀ p, p ≠ r.dest → contents s' p = contents s p) ∧
      (b = n ∧ s'.route b = r ∨ b ≠ n ∧ contents s' r.dest = contents s r.dest) := by
  obtain ⟨s', b, gs', before, old, behind, hadd, hsound, hplaced, -⟩ := h.placed hr f
  refine ⟨s', b, gs', hadd, hsound, hplaced.put h.rep h.intra hr, fun p hp => ?_, ?_⟩
  · rw [hplaced.rep.toShape.contents, h.rep.toShape.contents, hplaced.others p hp]
    exact hplaced.said_eq fun c hc => (h.rep.toShape.mem_groupAt.mp hc).1
  · obtain ⟨hb, hroute, -⟩ | hb := hplaced.own
    · exact .inl ⟨hb, hroute⟩
    · have hmem := hplaced.mem h.rep (.inr (.inl hb))
      refine .inr ⟨?_, ?_⟩
      · rintro rfl
        have hlive := h.rep.live b hmem
        rw [h.unused b le_rfl] at hlive
        exact absurd hlive (by simp)
      · have hsame : groupAt gs' r.dest = groupAt gs r.dest := by
          rw [hplaced.is, hplaced.was, Option.mem_def.mp hb]
          rfl
        rw [hplaced.rep.toShape.contents, h.rep.toShape.contents, hsame]
        exact hplaced.said_eq fun c hc => (h.rep.toShape.mem_groupAt.mp hc).1

theorem Sound.hookAdd {n : Addr} (h : Sound s n gs) (hr : r.Intra) (f : Flags) :
    ∃ s' gs', routeHook (s, n) (.add r f) = .ok (s', n + 1) ∧ Sound s' (n + 1) gs' ∧
      Put r.said (contents s r.dest) (contents s' r.dest) ∧ ∀ p, p ≠ r.dest → contents s' p = contents s p := by
  obtain ⟨s', b, gs', hadd, hsound, hput, hothers, -⟩ := h.add hr f
  refine ⟨s', gs', ?_, hsound, hput, hothers⟩
  simp only [routeHook, hadd, bind, Except.bind]
  rfl

/-! ### The hooks of a whole calculation -/

/-- What the hook called for a route with such flags does to the routes with its prefix. -/
def Hooked (f : Flags) (r : Route) (l l' : List Route) : Prop :=
  if f.again.remove then l' = l.erase r.said
  else if f.again.add || f.again.change then Put r.said l l'
  else l' = l

theorem Hooked.of_sansBest {f f' : Flags} {l l' : List Route} (h : f'.sansBest = f.sansBest) (hooked : Hooked f' r l l') :
    Hooked f r l l' := by
  obtain ⟨change, add, remove, best, wasRemoved⟩ := f
  obtain ⟨change', add', remove', best', wasRemoved'⟩ := f'
  simp only [Flags.sansBest, Flags.mk.injEq] at h
  obtain ⟨rfl, rfl, rfl, -, rfl⟩ := h
  cases add' <;> cases remove' <;> exact hooked

/-- What the hooks called for routes with one prefix do, one after another. -/
def Chained (s : Rtable) (l : List Route) : List Addr → List Route → Prop
  | [], l' => l' = l
  | a :: g, l' => ∃ m, Hooked (s.flag a) (s.route a) l m ∧ Chained s m g l'

theorem chained_snoc {l l' : List Route} {g : List Addr} {a : Addr} :
    Chained s l (g ++ [a]) l' ↔ ∃ m, Chained s l g m ∧ Hooked (s.flag a) (s.route a) m l' := by
  induction g generalizing l with
  | nil => simp [Chained]
  | cons c g ih =>
      simp only [List.cons_append, Chained, ih]
      exact ⟨fun ⟨m, hm, k, hk, hl⟩ => ⟨k, ⟨m, hm, hk⟩, hl⟩, fun ⟨k, ⟨m, hm, hk⟩, hl⟩ => ⟨m, hm, k, hk, hl⟩⟩

/-- The hook called for one route changes the routes with its prefix, and no others. -/
theorem Sound.hooked {n : Addr} (h : Sound s n gs) (hr : r.Intra) (hostnum : UInt32) (f : Flags) :
    ∃ s' m gs', (hookCalls hostnum f r).foldlM routeHook (s, n) = .ok (s', m) ∧ Sound s' m gs' ∧ n ≤ m ∧
      Hooked f r (contents s r.dest) (contents s' r.dest) ∧ ∀ p, p ≠ r.dest → contents s' p = contents s p := by
  rw [hookCalls]
  cases hremove : f.again.remove with
  | true =>
      obtain ⟨s', gs', hcall, hsound, hcontents⟩ := h.hookRemove r
      refine ⟨s', n, gs', ?_, hsound, le_rfl, ?_, fun p hp => ?_⟩
      · rw [if_pos rfl, List.foldlM_cons, hcall]
        rfl
      · rw [Hooked, hremove, if_pos rfl]
        exact hcontents _
      · rw [hcontents, List.erase_of_not_mem]
        rw [h.rep.toShape.contents]
        intro hmem
        obtain ⟨c, hc, hsaid⟩ := List.mem_map.mp hmem
        exact hp ((h.rep.toShape.mem_groupAt.mp hc).2.symm.trans (by rw [← said_dest, hsaid, said_dest]))
  | false =>
      rw [if_neg (by simp)]
      cases hadd : f.again.add || f.again.change with
      | true =>
          obtain ⟨s', gs', hcall, hsound, hput, hothers⟩ := h.hookAdd (r := { r with hostnum }) hr f.again
          refine ⟨s', n + 1, gs', ?_, hsound, Nat.le_succ n, ?_, hothers⟩
          · rw [if_pos rfl, List.foldlM_cons, hcall]
            rfl
          · rw [Hooked, hremove, hadd, if_neg (by simp), if_pos rfl]
            exact hput
      | false =>
          refine ⟨s, n, gs, by simp [pure, Except.pure], h, le_rfl, ?_, fun _ _ => rfl⟩
          rw [Hooked, hremove, hadd, if_neg (by simp), if_neg (by simp)]

end Hooks

section Calculation

variable {t : Tables} {rs : List Route} {gs hs : List (List Bool × List Addr)}

/-- No assertion of a function fails on such tables. -/
structure Good (t : Tables) (gs hs : List (List Bool × List Addr)) : Prop where
  area : Sound t.area t.unused gs
  top : Sound t.top t.unused hs

theorem Sound.mono {s : Rtable} {n m : Addr} (h : Sound s n gs) (hle : n ≤ m) : Sound s m gs :=
  ⟨h.rep, h.intra, fun a ha => h.unused a (hle.trans ha)⟩

/-- The routes are added, and the hook is called for those that were not there. -/
theorem Good.add (h : Good t gs hs) {r : Route} (hr : r.Intra) (hook : Bool) :
    ∃ t' gs' hs', areaRouteAdd hook t r = .ok t' ∧ Good t' gs' hs' ∧
      Put r.said (contents t.area r.dest) (contents t'.area r.dest) ∧
      (∀ p, p ≠ r.dest → contents t'.area p = contents t.area p ∧ contents t'.top p = contents t.top p) ∧
      (hook = true → contents t'.area r.dest = contents t.area r.dest ∧ contents t'.top r.dest = contents t.top r.dest ∨
        Put r.said (contents t.top r.dest) (contents t'.top r.dest)) := by
  obtain ⟨s', b, gs', hadd, hsound, hput, hothers, hown⟩ := h.area.add hr default
  obtain ⟨hcall, rfl, hroute⟩ | hcall : (hook = true ∧ b = t.unused ∧ s'.route b = r) ∨
      ¬ (hook = true ∧ b = t.unused) := by
    by_cases hcall : hook = true ∧ b = t.unused
    · exact .inl ⟨hcall.1, hcall.2, (hown.resolve_right fun hb => hb.1 hcall.2).2⟩
    · exact .inr hcall
  · obtain ⟨top', hs', hhook, htop, hput', hothers'⟩ := (h.top.mono (Nat.le_succ _)).hookAdd hr (s'.flag t.unused)
    refine ⟨⟨s', top', t.unused + 1 + 1⟩, gs', hs', ?_, ⟨hsound.mono (Nat.le_succ _), htop⟩, hput,
      fun p hp => ⟨hothers p hp, hothers' p hp⟩, fun _ => .inr hput'⟩
    simp only [areaRouteAdd, hadd, bind, Except.bind, hcall, and_self, if_true, hroute, hhook]
    rfl
  · refine ⟨⟨s', t.top, t.unused + 1⟩, gs', hs, ?_, ⟨hsound, h.top.mono (Nat.le_succ _)⟩, hput,
      fun p hp => ⟨hothers p hp, rfl⟩, fun hhook => .inl ⟨?_, rfl⟩⟩
    · simp only [areaRouteAdd, hadd, bind, Except.bind, hcall, if_false]
      rfl
    · exact (hown.resolve_left fun hb => hcall ⟨hhook, hb.1⟩).2

theorem Good.addAll (h : Good t gs hs) (hrs : ∀ r ∈ rs, r.Intra) (hook : Bool) :
    ∃ t' gs' hs', rs.foldlM (areaRouteAdd hook) t = .ok t' ∧ Good t' gs' hs' := by
  induction rs generalizing t gs hs with
  | nil => exact ⟨t, gs, hs, rfl, h⟩
  | cons r rs ih =>
      obtain ⟨t₁, gs₁, hs₁, hadd, h₁, -⟩ := h.add (hrs r (by simp)) hook
      obtain ⟨t', gs', hs', hfold, h'⟩ := ih h₁ fun r' hr' => hrs r' (by simp [hr'])
      refine ⟨t', gs', hs', ?_, h'⟩
      rw [List.foldlM_cons, hadd]
      exact hfold

/-- The last loop leaves the routes that stay; what it does to the table of the router it does prefix by prefix. -/
theorem Good.settle (h : Good t gs hs) (hostnum : UInt32) :
    ∃ t' gs' hs', Routes.forEach (settleRoute hostnum) (t.area, (t.top, t.unused)) = .ok (t'.area, (t'.top, t'.unused)) ∧
      Good t' gs' hs' ∧
      ∀ p, contents t'.area p = ((groupAt gs p).filter fun a => (t.area.flag a).stays).map
        (fun a => (t.area.route a).said) ∧
        Chained t.area (contents t.top p) (groupAt gs p) (contents t'.top p) := by
  have hloop := h.area.rep.settle hostnum (e := (t.top, t.unused))
    (T := fun l e => (∃ hs', Sound e.1 e.2 hs') ∧ t.unused ≤ e.2 ∧
      ∀ p, Chained t.area (contents t.top p) (l.filter fun a => (t.area.route a).dest == p) (contents e.1 p))
    (fun l a m e f hgs hf he => ?_) ⟨⟨hs, h.top⟩, le_rfl, fun p => rfl⟩
  · obtain ⟨s', e, gs', hloop, hrep, hchain, hsaid, ⟨⟨hs', htop⟩, hle, hchained⟩, hlive⟩ := hloop
    have hgroup : ∀ p, groupAt gs' p = (groupAt gs p).filter fun a => (t.area.flag a).stays := fun p => by
      rw [hrep.groupAt_eq, h.area.rep.groupAt_eq, hchain, List.filter_filter, List.filter_filter]
      refine List.filter_congr fun a _ => ?_
      rw [← said_dest, hsaid, said_dest, Bool.and_comm]
    refine ⟨⟨s', e.1, e.2⟩, gs', hs', hloop, ⟨⟨hrep, fun a ha => ?_, fun a ha => ?_⟩, htop⟩, fun p => ⟨?_, ?_⟩⟩
    · rw [hchain] at ha
      exact (h.area.intra a (List.mem_of_mem_filter ha)).of_said (hsaid a)
    · refine Bool.eq_false_iff.mpr fun hla => ?_
      have hla' := hlive a hla
      rw [h.area.unused a (hle.trans ha)] at hla'
      exact absurd hla' (by simp)
    · rw [hrep.toShape.contents, hgroup]
      exact List.map_congr_left fun a _ => hsaid a
    · rw [h.area.rep.groupAt_eq]
      exact hchained p
  · obtain ⟨⟨hs₁, hsound⟩, hle, hchained⟩ := he
    have hr : (t.area.route a).Intra := h.area.intra a (by rw [hgs]; simp)
    obtain ⟨top', m', hs', hcalls, hsound', hle', hhooked, hothers⟩ := hsound.hooked hr hostnum f
    refine ⟨(top', m'), hcalls, ⟨hs', hsound'⟩, hle.trans hle', fun p => ?_⟩
    rw [List.filter_append]
    by_cases hp : (t.area.route a).dest = p
    · subst hp
      rw [List.filter_cons_of_pos (by simp), List.filter_nil]
      exact chained_snoc.mpr ⟨_, hchained _, hhooked.of_sansBest hf⟩
    · rw [List.filter_cons_of_neg (by simpa using hp), List.filter_nil, List.append_nil, hothers p (Ne.symm hp)]
      exact hchained p

end Calculation

section Lsas

variable {v : View} {lsa : Spf.SpfLsa} {lsas : List Spf.SpfLsa} {t : Tables} {gs hs : List (List Bool × List Addr)}

/-- An LSA is too old to be read, or none of its prefixes goes beyond its bounds. -/
def View.Fits (v : View) (lsa : Spf.SpfLsa) : Prop := v.maxage lsa = false → Prefixes.IntraFits v.spfTable lsa

/-- The routes for the prefixes of all LSAs. -/
def View.routes (v : View) (lsas : List Spf.SpfLsa) : List Route := lsas.flatMap fun lsa => (lsaRoutes v lsa).getD []

theorem View.Fits.lsaRoutes (h : v.Fits lsa) : ∃ rs, Routes.lsaRoutes v lsa = some rs := by
  rw [Routes.lsaRoutes]
  cases hold : v.maxage lsa with
  | true => exact ⟨[], rfl⟩
  | false =>
      have hends := ((Prefixes.prefixes_safe_iff v.areaId v.spfTable lsa lsa).2.mpr (h hold)).ends
      obtain ⟨rs, hrs⟩ := Option.ne_none_iff_exists'.mp hends
      exact ⟨rs, hrs⟩

theorem intra_of_lsaRoutes {rs : List Route} (h : lsaRoutes v lsa = some rs) :
    ∀ r ∈ rs, r.Intra ∧ r.path.origin = ⟨lsa.header.type, lsa.header.id, lsa.header.advRouter⟩ := by
  rw [lsaRoutes] at h
  cases hold : v.maxage lsa with
  | true =>
      rw [hold, if_pos rfl] at h
      cases h
      simp
  | false =>
      rw [hold, if_neg (by simp), Prefixes.intraPrefixLsaAdd] at h
      obtain ⟨-, -, h⟩ := Exec.result_bind_eq_some.mp h
      by_cases hknown : Prefixes.half lsa 2 = lstypeRouter ∨ Prefixes.half lsa 2 = lstypeNetwork
      · rw [if_pos hknown] at h
        obtain ⟨-, -, h⟩ := Exec.result_bind_eq_some.mp h
        obtain ⟨-, -, h⟩ := Exec.result_bind_eq_some.mp h
        dsimp only at h
        generalize (if Prefixes.half lsa 2 = lstypeRouter then (0 : UInt32) else lsa.word 4) = id at h
        cases hentry : v.spfTable (Spf.linkstatePrefix (lsa.word 8) id) with
        | none =>
            rw [hentry] at h
            cases h
            simp
        | some lsEntry =>
            rw [hentry] at h
            obtain ⟨-, -, h⟩ := Exec.result_bind_eq_some.mp h
            obtain ⟨ds, -, h⟩ := Exec.result_bind_eq_some.mp h
            cases h
            intro r hr
            obtain ⟨d, -, rfl⟩ := List.mem_map.mp hr
            exact ⟨⟨rfl, rfl⟩, rfl⟩
      · rw [if_neg hknown] at h
        cases h
        simp

theorem View.intra_routes (hfits : ∀ lsa ∈ lsas, v.Fits lsa) : ∀ r ∈ v.routes lsas, r.Intra := by
  intro r hr
  obtain ⟨lsa, hlsa, hr⟩ := List.mem_flatMap.mp hr
  obtain ⟨rs, hrs⟩ := (hfits lsa hlsa).lsaRoutes
  rw [hrs, Option.getD_some] at hr
  exact (intra_of_lsaRoutes hrs r hr).1

theorem intraPrefixLsaAdd_eq (h : v.Fits lsa) (hook : Bool) (t : Tables) :
    intraPrefixLsaAdd hook v t lsa = ((lsaRoutes v lsa).getD []).foldlM (areaRouteAdd hook) t := by
  obtain ⟨rs, hrs⟩ := h.lsaRoutes
  rw [intraPrefixLsaAdd, hrs]
  rfl

/-- The LSAs are read one after another, and so are the routes for their prefixes added. -/
theorem foldlM_intraPrefixLsaAdd (hfits : ∀ lsa ∈ lsas, v.Fits lsa) (hook : Bool) (t : Tables) :
    lsas.foldlM (intraPrefixLsaAdd hook v) t = (v.routes lsas).foldlM (areaRouteAdd hook) t := by
  induction lsas generalizing t with
  | nil => rfl
  | cons lsa lsas ih =>
      have hroutes : v.routes (lsa :: lsas) = (lsaRoutes v lsa).getD [] ++ v.routes lsas := rfl
      rw [List.foldlM_cons, intraPrefixLsaAdd_eq (hfits lsa (by simp)), hroutes, List.foldlM_append]
      exact congrArg _ (funext fun t' => ih (fun l hl => hfits l (by simp [hl])) t')

/-- What is left of a calculation when the routes have been marked, added once more and swept. -/
theorem intraRouteCalculation_eq (hfits : ∀ lsa ∈ lsas, v.Fits lsa) {hostnum : UInt32} {s : Rtable} {t₁ t₂ : Tables}
    (hmark : Routes.forEach markRoute (t.area, ()) = .ok (s, ()))
    (hadd : (v.routes lsas).foldlM (areaRouteAdd false) { t with area := s } = .ok t₁)
    (hsettle : Routes.forEach (settleRoute hostnum) (t₁.area, (t₁.top, t₁.unused)) = .ok (t₂.area, (t₂.top, t₂.unused))) :
    intraRouteCalculation v lsas hostnum t = .ok t₂ := by
  simp only [intraRouteCalculation, hmark, foldlM_intraPrefixLsaAdd hfits, hadd, hsettle, bind, Except.bind]
  rfl

/-- The marks are on the routes, and nothing else is different. -/
theorem Good.mark (h : Good t gs hs) :
    ∃ s gs', Routes.forEach markRoute (t.area, ()) = .ok (s, ()) ∧ Good { t with area := s } gs' hs ∧ Passed s gs' [] ∧
      (∀ p, contents s p = contents t.area p) ∧ ∀ a ∈ chain gs', s.flag a = .marked := by
  obtain ⟨s, gs', hmark, hpassed, hroute, hchain, hflag, hlive⟩ := h.area.rep.mark h.area.intra
  refine ⟨s, gs', hmark, ⟨⟨hpassed.rep, hpassed.intra, fun a ha => ?_⟩, h.top⟩, hpassed, fun p => ?_, hflag⟩
  · refine Bool.eq_false_iff.mpr fun hla => ?_
    have hla' := hlive a hla
    rw [h.area.unused a ha] at hla'
    exact absurd hla' (by simp)
  · rw [hpassed.rep.toShape.contents, h.area.rep.toShape.contents, hpassed.rep.groupAt_eq, h.area.rep.groupAt_eq, hroute,
      hchain]

theorem step_install : (tables.step t (.install v lsa)).result = (intraPrefixLsaAdd true v t lsa).toOption := rfl

theorem step_calculate {hostnum : UInt32} :
    (tables.step t (.calculate v lsas hostnum)).result = (intraRouteCalculation v lsas hostnum t).toOption := rfl

/-- The LSAs of an event fit. -/
def TableEvent.Fits : TableEvent → Prop
  | .install v lsa => v.Fits lsa
  | .calculate v lsas _ => ∀ lsa ∈ lsas, v.Fits lsa

theorem Good.step (h : Good t gs hs) {e : TableEvent} (he : e.Fits) :
    ∃ t' gs' hs', (tables.step t e).result = some t' ∧ Good t' gs' hs' := by
  cases e with
  | install v lsa =>
      have hfits : v.Fits lsa := he
      obtain ⟨rs, hrs⟩ := hfits.lsaRoutes
      obtain ⟨t', gs', hs', hadd, h'⟩ := h.addAll (fun r hr => (intra_of_lsaRoutes hrs r hr).1) true
      refine ⟨t', gs', hs', ?_, h'⟩
      rw [step_install, intraPrefixLsaAdd_eq hfits, hrs, Option.getD_some, hadd]
      rfl
  | calculate v lsas hostnum =>
      have hfits : ∀ lsa ∈ lsas, v.Fits lsa := he
      obtain ⟨s, gs₁, hmark, h₁, -, -, -⟩ := h.mark
      obtain ⟨t₂, gs₂, hs₂, hadd, h₂⟩ := h₁.addAll (View.intra_routes hfits) false
      obtain ⟨t', gs', hs', hsettle, h', -⟩ := h₂.settle hostnum
      refine ⟨t', gs', hs', ?_, h'⟩
      rw [step_calculate, intraRouteCalculation_eq hfits hmark hadd hsettle]
      rfl

theorem Good.run (h : Good t gs hs) {es : List TableEvent} (hes : ∀ e ∈ es, e.Fits) :
    ∃ t' gs' hs', (tables.run t es).result = some t' ∧ Good t' gs' hs' := by
  induction es generalizing t gs hs with
  | nil => exact ⟨t, gs, hs, rfl, h⟩
  | cons e es ih =>
      obtain ⟨t₁, gs₁, hs₁, hstep, h₁⟩ := h.step (hes e (by simp))
      obtain ⟨t', gs', hs', hrun, h'⟩ := ih h₁ fun e' he' => hes e' (by simp [he'])
      refine ⟨t', gs', hs', ?_, h'⟩
      rw [Machine.run_cons, Exec.bind_of_some _ hstep]
      exact hrun

theorem good_noRoutes : Good noRoutes [] [] := by
  have hsound : Sound empty 0 [] := ⟨empty_rep, by simp [chain], fun a _ => rfl⟩
  exact ⟨hsound, hsound⟩

/-- A calculation on good tables leaves the routes of the LSAs in the table of the area. -/
theorem Good.calculate (h : Good t gs hs) (hfits : ∀ lsa ∈ lsas, v.Fits lsa) (hdistinct : Distinct (v.routes lsas))
    (hostnum : UInt32) :
    ∃ t', intraRouteCalculation v lsas hostnum t = .ok t' ∧
      ∀ p, (contents t'.area p).Perm (((v.routes lsas).filter (·.dest == p)).map Route.said) := by
  obtain ⟨s, gs₁, hmark, h₁, hpassed, -, -⟩ := h.mark
  obtain ⟨t₂, gs₂, hadd, hpassed₂, -, -, -⟩ := hpassed.addAll (t := { t with area := s }) h₁.area.unused
    (View.intra_routes hfits) hdistinct
  obtain ⟨t₃, gs₃, hs₃, hadd', h₃⟩ := h₁.addAll (View.intra_routes hfits) false
  obtain rfl := Except.ok.inj (hadd.symm.trans hadd')
  obtain ⟨t', gs', hs', hsettle, h', hcontents⟩ := h₃.settle hostnum
  refine ⟨t', intraRouteCalculation_eq hfits hmark hadd hsettle, fun p => ?_⟩
  have hgroup : groupAt gs₃ p = groupAt gs₂ p := by
    rw [← h₃.area.rep.toShape.routesOf, ← hpassed₂.rep.toShape.routesOf]
  rw [(hcontents p).1, hgroup]
  exact hpassed₂.stays p

instance decidableNarrow (stop : UInt8 → Bool) (lsa : Spf.SpfLsa) : (current n : Nat) →
    Decidable (Prefixes.Narrow stop lsa current n)
  | _, 0 => isTrue trivial
  | current, n + 1 =>
    have := decidableNarrow stop lsa (current + Prefixes.prefixSize (lsa.bytes current).toNat) n
    inferInstanceAs (Decidable (_ → _ → _ → _ ∧ _))

instance (v : View) (lsa : Spf.SpfLsa) : Decidable (v.Fits lsa) :=
  inferInstanceAs (Decidable (_ → _ ∧ (_ → _ ∧ (_ → _))))

instance : (e : TableEvent) → Decidable e.Fits
  | .install v lsa => inferInstanceAs (Decidable (v.Fits lsa))
  | .calculate v lsas _ => inferInstanceAs (Decidable (∀ lsa ∈ lsas, v.Fits lsa))

instance (rs : List Route) : Decidable (Distinct rs) := inferInstanceAs (Decidable (List.Pairwise _ rs))

/-- A run that ends with a calculation ends without a failure, and what is in the table of the area then are the routes
for the prefixes of the LSAs of this calculation, whatever there was before. No LSA names a prefix twice. -/
theorem contents_of_calculate (es : List TableEvent) (v : View) (lsas : List Spf.SpfLsa) (hostnum : UInt32)
    (hes : ∀ e ∈ es, e.Fits) (hfits : ∀ lsa ∈ lsas, v.Fits lsa) (hdistinct : Distinct (v.routes lsas)) :
    ∃ t, (tables.run noRoutes (es ++ [.calculate v lsas hostnum])).result = some t ∧
      ∀ p, (contents t.area p).Perm (((v.routes lsas).filter (·.dest == p)).map Route.said) := by
  obtain ⟨t, gs, hs, hrun, hgood⟩ := good_noRoutes.run hes
  obtain ⟨t', hcalc, hcontents⟩ := hgood.calculate hfits hdistinct hostnum
  refine ⟨t', ?_, hcontents⟩
  rw [Machine.run_snoc, Exec.bind_of_some _ hrun, step_calculate, hcalc]
  rfl

/-- An Intra-Area-Prefix-LSA of a router, with prefixes of eight bits. -/
def prefixesOf (advRouter : UInt32) (nets : List UInt8) : Spf.SpfLsa where
  header := ⟨0x2009, 0, advRouter, 0x80000001, 0, UInt16.ofNat (32 + 8 * nets.length)⟩
  bytes i := ([0, UInt8.ofNat nets.length, 0x20, 0x01, 0, 0, 0, 0] ++ Rfp.htonl advRouter ++
    nets.flatMap fun net => [8, 0, 0, 1, net, 0, 0, 0]).getD i 0

/-- All routers are there, at a cost of 10. -/
def sampleView : View := ⟨0, fun _ => some (sampleRoute [] 0 10), fun _ => false⟩

/-- A prefix goes from one router to the other, and one is withdrawn. -/
def movedPrefixes : List TableEvent :=
  [.install sampleView (prefixesOf 1 [0x20, 0x30]), .install sampleView (prefixesOf 2 [0x40]),
    .calculate sampleView [prefixesOf 1 [0x20, 0x30], prefixesOf 2 [0x40]] 7]

theorem contents_of_calculate_moved :
    ∃ t, (tables.run noRoutes (movedPrefixes ++
        [.calculate sampleView [prefixesOf 1 [0x20], prefixesOf 2 [0x30]] 8])).result = some t ∧
      ∀ p, (contents t.area p).Perm
        (((sampleView.routes [prefixesOf 1 [0x20], prefixesOf 2 [0x30]]).filter (·.dest == p)).map Route.said) :=
  contents_of_calculate movedPrefixes sampleView [prefixesOf 1 [0x20], prefixesOf 2 [0x30]] 8 (by decide)
    (by decide) (by decide)

end Lsas

section Copies

variable {s : Rtable} {gs hs : List (List Bool × List Addr)} {r : Route} {l l' : List Route} {t : Tables}

theorem put_same (h : Put r l l') (hl : l.length ≤ 1) (horigin : ∀ x ∈ l, x.path.origin = r.path.origin) : l' = [r] := by
  obtain ⟨before, behind, old, rfl, rfl, hbefore, -, hbehind⟩ := h
  have hnil : before = [] := List.eq_nil_iff_forall_not_mem.mpr fun x hx => hbefore x hx (horigin x (by simp [hx]))
  have hnil' : behind = [] := by
    cases old with
    | none =>
        refine List.head?_eq_none_iff.mp (Option.eq_none_iff_forall_not_mem.mpr fun x hx => ?_)
        exact hbehind rfl x hx (horigin x (by simp [List.mem_of_mem_head? hx]))
    | some o =>
        rw [hnil] at hl
        exact List.eq_nil_of_length_eq_zero (Nat.le_zero.mp (Nat.succ_le_succ_iff.mp hl))
  rw [hnil, hnil']
  rfl

theorem put_other {x : Route} (h : Put r [x] l') (horigin : x.path.origin ≠ r.path.origin) : l'.erase x = [r] := by
  obtain ⟨before, behind, old, hl, rfl, -, hold, -⟩ := h
  have hne : r ≠ x := fun hrx => horigin (by rw [hrx])
  obtain ⟨rfl, hrest⟩ | ⟨rest, rfl, hrest⟩ := List.cons_eq_append_iff.mp hl
  · cases old with
    | none =>
        obtain rfl : behind = [x] := hrest
        simp [hne]
    | some o =>
        obtain ⟨rfl, -⟩ := List.cons_eq_cons.mp hrest
        exact absurd (hold o rfl) horigin
  · obtain ⟨hrest, hnone⟩ := List.append_eq_nil_iff.mp hrest.symm
    obtain ⟨-, hbehind⟩ := List.append_eq_nil_iff.mp hnone
    rw [hrest, hbehind]
    simp

/-- What was there for a prefix before the calculation: one route at most, with a mark. -/
structure Marked (s : Rtable) (l : List Route) (g : List Addr) : Prop where
  said : (g.map fun a => (s.route a).said) = l
  flag : ∀ a ∈ g, (s.flag a).sansBest = .marked
  length : l.length ≤ 1

/-- The hooks called for a prefix come to leave there what stays. -/
def Due (s : Rtable) (l : List Route) (g : List Addr) : Prop :=
  ∀ l', Chained s l g l' → l' = (g.filter fun a => (s.flag a).stays).map (fun a => (s.route a).said) ∧ l'.length ≤ 1

theorem hooked_iff {f f' : Flags} (h : f'.sansBest = f.sansBest) : Hooked f' r l l' ↔ Hooked f r l l' :=
  ⟨Hooked.of_sansBest h, Hooked.of_sansBest h.symm⟩

theorem hooked_marked {f : Flags} (h : f.sansBest = .marked) : Hooked f r l l' ↔ l' = l.erase r.said :=
  hooked_iff (f := .marked) h

theorem hooked_again {f : Flags} (h : f.sansBest = { Flags.marked with add := true }) : Hooked f r l l' ↔ l' = l :=
  hooked_iff (f := { Flags.marked with add := true }) h

theorem hooked_new {f : Flags} (h : f.sansBest = { Flags.none with add := true }) : Hooked f r l l' ↔ Put r.said l l' :=
  hooked_iff (f := { Flags.none with add := true }) h

theorem hooked_changed {f : Flags} (h : f.sansBest = { Flags.none with change := true }) :
    Hooked f r l l' ↔ Put r.said l l' :=
  hooked_iff (f := { Flags.none with change := true }) h

theorem stays_marked {f : Flags} (h : f.sansBest = .marked) : f.stays = false := by
  rw [stays_eq, h]
  rfl

theorem Marked.due {g : List Addr} (h : Marked s l g) : Due s l g := by
  intro l' hl'
  have hlength := h.length
  rw [← h.said, List.length_map] at hlength
  match g, hlength with
  | [], _ =>
      obtain rfl : l' = l := hl'
      obtain rfl := h.said
      exact ⟨rfl, Nat.zero_le 1⟩
  | [a], _ =>
      obtain ⟨m, hm, rfl⟩ : ∃ m, Hooked (s.flag a) (s.route a) l m ∧ l' = m := hl'
      have hflag := h.flag a (by simp)
      obtain rfl := h.said
      rw [(hooked_marked hflag).mp hm, List.filter_cons_of_neg (by simp [stays_marked hflag])]
      simp

theorem cases_of_length {before behind : List Addr} {old : Option Addr}
    (h : (before ++ (old.toList ++ behind)).length ≤ 1) :
    (before = [] ∧ old = none ∧ behind = []) ∨ (∃ c, before = [c] ∧ old = none ∧ behind = []) ∨
      (∃ c, before = [] ∧ old = none ∧ behind = [c]) ∨ ∃ o, before = [] ∧ old = some o ∧ behind = [] := by
  rw [List.length_append, List.length_append] at h
  cases old with
  | none =>
      obtain rfl | hbefore := Nat.eq_zero_or_pos before.length |>.imp_left List.eq_nil_of_length_eq_zero
      · cases behind with
        | nil => exact .inl ⟨rfl, rfl, rfl⟩
        | cons c behind =>
            obtain rfl : behind = [] := List.eq_nil_of_length_eq_zero (by simpa using h)
            exact .inr (.inr (.inl ⟨c, rfl, rfl, rfl⟩))
      · obtain ⟨c, rfl⟩ := List.length_eq_one_iff.mp (show before.length = 1 by omega)
        have hone : [c].length = 1 := rfl
        obtain rfl : behind = [] := List.eq_nil_of_length_eq_zero (by omega)
        exact .inr (.inl ⟨c, rfl, rfl, rfl⟩)
  | some o =>
      have hone : (some o).toList.length = 1 := rfl
      obtain rfl : before = [] := List.eq_nil_of_length_eq_zero (by omega)
      obtain rfl : behind = [] := List.eq_nil_of_length_eq_zero (by omega)
      exact .inr (.inr (.inr ⟨o, rfl, rfl, rfl⟩))

/-- A route added for a prefix that has one at most: the old one goes, or is replaced, or is there again. -/
theorem Marked.add {a b : Addr} {before behind : List Addr} {old : Option Addr} {s' : Rtable}
    {gs' : List (List Bool × List Addr)} (hmarked : Marked s l (groupAt gs r.dest))
    (h : Placed s gs a r before old behind s' b gs') (hrep : Rep s none gs) (hintra : ∀ c ∈ chain gs, (s.route c).Intra)
    (hr : r.Intra)
    (hflag : (s'.flag b).sansBest = (if b ∈ old then { (s.flag b).sansBest with add := true }
      else if old = none then { (default : Flags).sansBest with add := true }
      else { (default : Flags).sansBest with change := true })) :
    Due s' l (groupAt gs' r.dest) := by
  intro l' hl'
  have hwas := hmarked.said
  have hlength := hmarked.length
  rw [← hwas, List.length_map, h.was] at hlength
  rw [h.was] at hwas
  rw [h.is] at hl' ⊢
  have hold : ∀ {c}, c ∈ before ∨ c ∈ behind → (s'.flag c).sansBest = .marked ∧ s'.route c = s.route c := fun {c} hc => by
    have hmem := h.mem hrep (hc.imp id .inr)
    have hgroup : c ∈ groupAt gs r.dest := by
      rw [h.was, List.mem_append, List.mem_append]
      exact hc.imp id .inr
    exact ⟨(h.flag c hmem (h.ne hc)).trans (hmarked.flag c hgroup), h.route c hmem⟩
  have horigin : ∀ {c}, c ∈ before ∨ old = none ∧ c ∈ behind.head? → (s.route c).said.path.origin ≠ r.said.path.origin :=
    fun {c} hc => origin_ne_iff.mpr <| hc.elim
      (fun hc => h.passed c hc ((hintra c (h.mem hrep (.inl hc))).1.trans hr.1.symm)) fun hc => h.stopped hc.1 c hc.2
  obtain ⟨rfl, rfl, rfl⟩ | ⟨c, rfl, rfl, rfl⟩ | ⟨c, rfl, rfl, rfl⟩ | ⟨o, rfl, rfl, rfl⟩ := cases_of_length hlength
  · obtain rfl : l = [] := hwas.symm
    obtain ⟨m, hm, rfl⟩ : ∃ m, Hooked (s'.flag b) (s'.route b) [] m ∧ l' = m := hl'
    rw [if_neg (by simp), if_pos rfl] at hflag
    have hput := put_same ((hooked_new hflag).mp hm) (Nat.zero_le 1) (by simp)
    have hstays : (s'.flag b).stays = true := stays_sansBest (f := { Flags.none with add := true }) hflag
    simp [hput, hstays]
  · obtain ⟨hc, hroute⟩ := hold (c := c) (.inl (by simp))
    obtain rfl : l = [(s.route c).said] := hwas.symm
    obtain ⟨m, hm, k, hk, rfl⟩ : ∃ m, Hooked (s'.flag c) (s'.route c) [(s.route c).said] m ∧
      ∃ k, Hooked (s'.flag b) (s'.route b) m k ∧ l' = k := hl'
    rw [if_neg (by simp), if_pos rfl] at hflag
    obtain rfl : m = [] := by
      rw [(hooked_marked hc).mp hm, hroute]
      simp
    have hput := put_same ((hooked_new hflag).mp hk) (Nat.zero_le 1) (by simp)
    have hstays : (s'.flag b).stays = true := stays_sansBest (f := { Flags.none with add := true }) hflag
    simp [hput, hstays, stays_marked hc]
  · obtain ⟨hc, hroute⟩ := hold (c := c) (.inr (by simp))
    obtain rfl : l = [(s.route c).said] := hwas.symm
    obtain ⟨m, hm, k, hk, rfl⟩ : ∃ m, Hooked (s'.flag b) (s'.route b) [(s.route c).said] m ∧
      ∃ k, Hooked (s'.flag c) (s'.route c) m k ∧ l' = k := hl'
    rw [if_neg (by simp), if_pos rfl] at hflag
    have hput := put_other ((hooked_new hflag).mp hm) (by rw [h.said]; exact horigin (.inr ⟨rfl, rfl⟩))
    have hstays : (s'.flag b).stays = true := stays_sansBest (f := { Flags.none with add := true }) hflag
    rw [(hooked_marked hc).mp hk, hroute, hput]
    simp [hstays, stays_marked hc]
  · have hgroup : o ∈ groupAt gs r.dest := by
      rw [h.was]
      simp
    obtain rfl : l = [(s.route o).said] := hwas.symm
    obtain ⟨m, hm, rfl⟩ : ∃ m, Hooked (s'.flag b) (s'.route b) [(s.route o).said] m ∧ l' = m := hl'
    by_cases hbo : b = o
    · subst hbo
      rw [if_pos (show b ∈ some b from rfl), hmarked.flag b hgroup] at hflag
      rw [(hooked_again hflag).mp hm, ← h.route b (h.mem hrep (.inr (.inl rfl)))]
      have hstays : (s'.flag b).stays = true := stays_sansBest (f := { Flags.marked with add := true }) hflag
      simp [hstays]
    · have hnot : b ∉ some o := fun hb => hbo (Option.some.inj hb).symm
      rw [if_neg hnot, if_neg (by simp)] at hflag
      have hsame : ∀ x ∈ [(s.route o).said], x.path.origin = (s'.route b).said.path.origin := by
        intro x hx
        obtain rfl := List.mem_singleton.mp hx
        rw [h.said]
        exact beq_iff_eq.mp (h.found o rfl).2
      have hput := put_same ((hooked_changed hflag).mp hm) (by simp) hsame
      have hstays : (s'.flag b).stays = true := stays_sansBest (f := { Flags.none with change := true }) hflag
      simp [hput, hstays]

theorem chained_congr {s' : Rtable} {g : List Addr} (hflag : ∀ a ∈ g, (s'.flag a).sansBest = (s.flag a).sansBest)
    (hroute : ∀ a ∈ g, s'.route a = s.route a) : Chained s' l g l' ↔ Chained s l g l' := by
  induction g generalizing l with
  | nil => rfl
  | cons a g ih =>
      simp only [Chained, hroute a (by simp), hooked_iff (hflag a (by simp)),
        ih (fun c hc => hflag c (by simp [hc])) fun c hc => hroute c (by simp [hc])]

theorem Due.congr {s' : Rtable} {g : List Addr} (h : Due s l g)
    (hflag : ∀ a ∈ g, (s'.flag a).sansBest = (s.flag a).sansBest) (hroute : ∀ a ∈ g, s'.route a = s.route a) :
    Due s' l g := by
  intro l' hl'
  obtain ⟨rfl, hlength⟩ := h l' ((chained_congr hflag hroute).mp hl')
  refine ⟨?_, hlength⟩
  have hfilter : (g.filter fun a => (s'.flag a).stays) = g.filter fun a => (s.flag a).stays :=
    List.filter_congr fun a ha => stays_sansBest (hflag a ha)
  rw [hfilter]
  exact List.map_congr_left fun a ha => by rw [hroute a (List.mem_of_mem_filter ha)]

theorem Marked.congr {s' : Rtable} {g : List Addr} (h : Marked s l g)
    (hflag : ∀ a ∈ g, (s'.flag a).sansBest = (s.flag a).sansBest) (hroute : ∀ a ∈ g, s'.route a = s.route a) :
    Marked s' l g where
  said := (List.map_congr_left fun a ha => by rw [hroute a ha]).trans h.said
  flag a ha := (hflag a ha).trans (h.flag a ha)
  length := h.length

/-- The routes are added once more, each for a prefix of its own. -/
theorem Good.due {rs : List Route} {l : List Bool → List Route} (h : Good t gs hs) (hrs : ∀ r ∈ rs, r.Intra)
    (hsole : rs.Pairwise fun r r' => r.dest ≠ r'.dest)
    (hmarked : ∀ r ∈ rs, Marked t.area (l r.dest) (groupAt gs r.dest))
    (hdue : ∀ p, Due t.area (l p) (groupAt gs p)) :
    ∃ t' gs', rs.foldlM (areaRouteAdd false) t = .ok t' ∧ Good t' gs' hs ∧ t'.top = t.top ∧
      ∀ p, Due t'.area (l p) (groupAt gs' p) := by
  induction rs generalizing t gs with
  | nil => exact ⟨t, gs, rfl, h, rfl, hdue⟩
  | cons r rs ih =>
      obtain ⟨hne, hsole⟩ := List.pairwise_cons.mp hsole
      have hr := hrs r (by simp)
      obtain ⟨s', b, gs₁, before, old, behind, hadd, hsound, hplaced, hflag⟩ := h.area.placed hr default
      have hstep : areaRouteAdd false t r = .ok ⟨s', t.top, t.unused + 1⟩ := by
        simp [areaRouteAdd, hadd, bind, Except.bind, pure, Except.pure]
      have hothers : ∀ p, p ≠ r.dest → ∀ c ∈ groupAt gs p,
          (s'.flag c).sansBest = (t.area.flag c).sansBest ∧ s'.route c = t.area.route c := by
        intro p hp c hc
        obtain ⟨hmem, hdest⟩ := h.area.rep.mem_groupAt.mp hc
        have hroute := hplaced.route c hmem
        refine ⟨hplaced.flag c hmem ?_, hroute⟩
        rintro rfl
        rw [← hroute, ← said_dest, hplaced.said, said_dest] at hdest
        exact hp hdest.symm
      have h₁ : Good ⟨s', t.top, t.unused + 1⟩ gs₁ hs := ⟨hsound, h.top.mono (Nat.le_succ _)⟩
      have hrest := ih h₁ (fun r' hr' => hrs r' (by simp [hr'])) hsole (fun r' hr' => ?_) fun p => ?_
      · obtain ⟨t', gs', hfold, h', htop, hdue'⟩ := hrest
        refine ⟨t', gs', ?_, h', htop, hdue'⟩
        rw [List.foldlM_cons, hstep]
        exact hfold
      · have hp := (hne r' hr').symm
        rw [hplaced.others _ hp]
        exact (hmarked r' (by simp [hr'])).congr (fun c hc => (hothers _ hp c hc).1) fun c hc => (hothers _ hp c hc).2
      · by_cases hp : p = r.dest
        · subst hp
          exact (hmarked r (by simp)).add hplaced h.area.rep h.area.intra hr hflag
        · rw [hplaced.others p hp]
          exact (hdue p).congr (fun c hc => (hothers p hp c hc).1) fun c hc => (hothers p hp c hc).2

/-- The table of the router has a copy of each route in the table of the area, and no prefix has two. -/
structure Twin (t : Tables) (gs hs : List (List Bool × List Addr)) : Prop extends Good t gs hs where
  copies : ∀ p, contents t.top p = contents t.area p
  length : ∀ p, (contents t.area p).length ≤ 1

/-- No prefix is named by two LSAs, or twice in a calculation. -/
def TableEvent.Sole (t : Tables) : TableEvent → Prop
  | .install v lsa => ∀ r ∈ v.routes [lsa], ∀ x ∈ contents t.area r.dest, x.path.origin = r.path.origin
  | .calculate v lsas _ => (v.routes lsas).Pairwise fun r r' => r.dest ≠ r'.dest

theorem Twin.calculate {v : View} {lsas : List Spf.SpfLsa} (h : Twin t gs hs) (hfits : ∀ lsa ∈ lsas, v.Fits lsa)
    (hsole : (v.routes lsas).Pairwise fun r r' => r.dest ≠ r'.dest) (hostnum : UInt32) :
    ∃ t' gs' hs', intraRouteCalculation v lsas hostnum t = .ok t' ∧ Twin t' gs' hs' := by
  obtain ⟨s, gs₁, hmark, h₁, hpassed, hsame, hflag⟩ := h.toGood.mark
  have hmarked : ∀ p, Marked s (contents t.top p) (groupAt gs₁ p) := fun p =>
    { said := by rw [h.copies, ← hsame, hpassed.rep.toShape.contents]
      flag := fun a ha => by
        rw [hflag a (hpassed.rep.mem_groupAt.mp ha).1]
        rfl
      length := by
        rw [h.copies]
        exact h.length p }
  obtain ⟨t₂, gs₂, hadd, h₂, htop, hdue⟩ := h₁.due (View.intra_routes hfits) hsole (fun r _ => hmarked r.dest)
    fun p => (hmarked p).due
  obtain ⟨t', gs', hs', hsettle, h', hcontents⟩ := h₂.settle hostnum
  refine ⟨t', gs', hs', intraRouteCalculation_eq hfits hmark hadd hsettle, ⟨h', fun p => ?_, fun p => ?_⟩⟩
  · obtain ⟨harea, hchained⟩ := hcontents p
    rw [htop] at hchained
    rw [harea]
    exact (hdue p _ hchained).1
  · obtain ⟨harea, hchained⟩ := hcontents p
    rw [htop] at hchained
    obtain ⟨hstays, hlength⟩ := hdue p _ hchained
    rw [harea, ← hstays]
    exact hlength

theorem Twin.addAll {rs : List Route} {o : LsOrigin} (h : Twin t gs hs)
    (hrs : ∀ r ∈ rs, r.Intra ∧ r.path.origin = o)
    (hsole : ∀ r ∈ rs, ∀ x ∈ contents t.area r.dest, x.path.origin = o) :
    ∃ t' gs' hs', rs.foldlM (areaRouteAdd true) t = .ok t' ∧ Twin t' gs' hs' := by
  induction rs generalizing t gs hs with
  | nil => exact ⟨t, gs, hs, rfl, h⟩
  | cons r rs ih =>
      obtain ⟨hr, horigin⟩ := hrs r (by simp)
      obtain ⟨t₁, gs₁, hs₁, hadd, h₁, hput, hothers, htop⟩ := h.toGood.add hr true
      have hsame : ∀ x ∈ contents t.area r.dest, x.path.origin = r.said.path.origin := fun x hx =>
        (hsole r (by simp) x hx).trans horigin.symm
      have harea := put_same hput (h.length _) hsame
      have hcopies : contents t₁.top r.dest = contents t₁.area r.dest := by
        obtain ⟨hold, htop⟩ | hput := htop rfl
        · rw [htop, hold, h.copies]
        · rw [h.copies] at hput
          rw [harea]
          exact put_same hput (h.length _) hsame
      have h₁' : Twin t₁ gs₁ hs₁ := by
        refine ⟨h₁, fun p => ?_, fun p => ?_⟩
        · by_cases hp : p = r.dest
          · subst hp
            exact hcopies
          · rw [(hothers p hp).1, (hothers p hp).2]
            exact h.copies p
        · by_cases hp : p = r.dest
          · subst hp
            rw [harea, List.length_singleton]
          · rw [(hothers p hp).1]
            exact h.length p
      have hrest := ih h₁' (fun r' hr' => hrs r' (by simp [hr'])) fun r' hr' x hx => ?_
      · obtain ⟨t', gs', hs', hfold, h'⟩ := hrest
        refine ⟨t', gs', hs', ?_, h'⟩
        rw [List.foldlM_cons, hadd]
        exact hfold
      · by_cases hp : r'.dest = r.dest
        · rw [hp, harea] at hx
          obtain rfl := List.mem_singleton.mp hx
          exact horigin
        · rw [(hothers _ hp).1] at hx
          exact hsole r' (by simp [hr']) x hx

theorem Twin.step (h : Twin t gs hs) {e : TableEvent} (hfits : e.Fits) (hsole : e.Sole t) :
    ∃ t' gs' hs', (tables.step t e).result = some t' ∧ Twin t' gs' hs' := by
  cases e with
  | install v lsa =>
      have hfits : v.Fits lsa := hfits
      obtain ⟨rs, hrs⟩ := hfits.lsaRoutes
      have hroutes : v.routes [lsa] = rs := by
        rw [View.routes, List.flatMap_singleton, hrs]
        rfl
      obtain ⟨t', gs', hs', hadd, h'⟩ := h.addAll (intra_of_lsaRoutes hrs) fun r hr x hx =>
        (hsole r (hroutes ▸ hr) x hx).trans (intra_of_lsaRoutes hrs r hr).2
      refine ⟨t', gs', hs', ?_, h'⟩
      rw [step_install, intraPrefixLsaAdd_eq hfits, hrs, Option.getD_some, hadd]
      rfl
  | calculate v lsas hostnum =>
      obtain ⟨t', gs', hs', hcalc, h'⟩ := h.calculate hfits hsole hostnum
      refine ⟨t', gs', hs', ?_, h'⟩
      rw [step_calculate, hcalc]
      rfl

theorem Twin.run (h : Twin t gs hs) {es : List TableEvent}
    (hes : tables.AllSteps (fun t e => e.Fits ∧ e.Sole t) t es) :
    ∃ t' gs' hs', (tables.run t es).result = some t' ∧ Twin t' gs' hs' := by
  induction es generalizing t gs hs with
  | nil => exact ⟨t, gs, hs, rfl, h⟩
  | cons e es ih =>
      obtain ⟨⟨hfits, hsole⟩, hes⟩ := hes
      obtain ⟨t₁, gs₁, hs₁, hstep, h₁⟩ := h.step hfits hsole
      obtain ⟨t', gs', hs', hrun, h'⟩ := ih h₁ (hes t₁ hstep)
      refine ⟨t', gs', hs', ?_, h'⟩
      rw [Machine.run_cons, Exec.bind_of_some _ hstep]
      exact hrun

theorem twin_noRoutes : Twin noRoutes [] [] := by
  refine ⟨good_noRoutes, fun p => rfl, fun p => ?_⟩
  rw [good_noRoutes.area.rep.toShape.contents]
  exact Nat.zero_le 1

instance (t : Tables) : (e : TableEvent) → Decidable (e.Sole t)
  | .install v lsa => inferInstanceAs (Decidable (∀ r ∈ v.routes [lsa], ∀ x ∈ contents t.area r.dest, _))
  | .calculate v lsas _ => inferInstanceAs (Decidable (List.Pairwise _ (v.routes lsas)))

end Copies

end Harry.Routes
