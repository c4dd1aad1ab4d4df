import Harry.SiblingRouteBest

/-! What the datapaths hear of the routes of a sibling. The hooks of `ospf6_top.c` hand a route that is added to
`sibling_ctrl_route_set`, which has each controller client ask for it if it is marked as the best one, and a route that
is removed to `sibling_ctrl_route_unset`, which has nobody ask for anything. -/

namespace Harry.Routes

open Harry.Base Harry.Table Harry.Sibling

/-- A connected address, as `inter_con` points to it: the address and the index of its interface. -/
structure Connected where
  address : List UInt8
  ifindex : UInt32
  deriving DecidableEq

/-- `struct ctrl_client`, as far as routes are concerned. `inter_con` is null until the address is known. -/
structure CtrlClient where
  hostnum : UInt32
  interCon : Option Connected
  deriving DecidableEq

/-- An `RFPT_IPV6_ROUTE_SET_REQUEST` to a client; `htons` takes the low half of an index. -/
structure RouteSetRequest where
  client : UInt32
  dest : List Bool
  ifindex : UInt16
  nexthopAddr : List UInt8
  deriving DecidableEq

/-- `route->nexthop[0]`, which is zero if there is no next hop. -/
def Route.nexthop0 (r : Route) : Nexthop :=
  r.nexthop.headD ⟨0, List.replicate 16 0⟩

def Route.setNexthop0 (r : Route) (n : Nexthop) : Route :=
  { r with nexthop := n :: r.nexthop.tail }

/-- `ctrl_client_route_set`, of a route that is marked as the best or is not. -/
def ctrlClientRouteSet (client : CtrlClient) (route : Route) (best : Bool) : Exec RouteSetRequest Unit :=
  Exec.when (best = true) (Exec.emit
    { client := client.hostnum
      dest := route.dest
      ifindex := route.nexthop0.ifindex.toUInt16
      nexthopAddr := route.nexthop0.address })

/-- `sibling_ctrl_route_set`. The copy of the route has its flags. -/
def siblingCtrlRouteSet (ctrlClients : List CtrlClient) (route : Route) (best : Bool) : Exec RouteSetRequest Unit :=
  ctrlClients.forM fun ctrlClient =>
    if route.hostnum = ctrlClient.hostnum then ctrlClientRouteSet ctrlClient route best
    else ctrlClients.forM fun hostnumCtrlClient =>
      Exec.when (route.hostnum = hostnumCtrlClient.hostnum) do
        let owner ← Exec.deref hostnumCtrlClient.interCon
        let con ← Exec.deref ctrlClient.interCon
        ctrlClientRouteSet ctrlClient (route.setNexthop0 ⟨con.ifindex, owner.address⟩) best

/-- `ctrl_client_route_unset`: it has a debug line for the case that another route takes the place of the one that
goes, and sends nothing. -/
def ctrlClientRouteUnset (_ctrlClient : CtrlClient) (_route : Route) : Exec RouteSetRequest Unit :=
  pure ()

/-- `sibling_ctrl_route_unset`. -/
def siblingCtrlRouteUnset (ctrlClients : List CtrlClient) (route : Route) : Exec RouteSetRequest Unit :=
  ctrlClients.forM fun ctrlClient => ctrlClientRouteUnset ctrlClient route

/-- The table of a sibling with its hooks. An addition that finds the same route in the table calls none. -/
def datapath (ctrlClients : List CtrlClient) : Machine Rtable Change RouteSetRequest where
  step s
    | .add a r f => do
      let (s', t) ← Exec.deref (routeAdd (routeCreate s a r f) a).toOption
      Exec.when (t = a) (siblingCtrlRouteSet ctrlClients (s'.route a) (s'.flag a).best)
      pure s'
    | .remove a => do
      let s' ← Exec.deref (routeRemove s a).toOption
      siblingCtrlRouteUnset ctrlClients (s.route a)
      pure s'

/-- What a client is to ask for, of a route: its next hop if it is the client's own, and else the address between the
controllers of the client whose it is. -/
def requestFor (ctrlClients : List CtrlClient) (k : CtrlClient) (r : Route) : Option RouteSetRequest :=
  if r.hostnum = k.hostnum then
    some ⟨k.hostnum, r.dest, r.nexthop0.ifindex.toUInt16, r.nexthop0.address⟩
  else do
    let owner ← (ctrlClients.find? fun c => c.hostnum == r.hostnum).bind CtrlClient.interCon
    let con ← k.interCon
    some ⟨k.hostnum, r.dest, con.ifindex.toUInt16, owner.address⟩

/-- The last request to a client for a prefix. -/
def lastRequest (k : UInt32) (p : List Bool) (requests : List RouteSetRequest) : Option RouteSetRequest :=
  (requests.filter fun m => m.client == k && m.dest == p).getLast?

/-- The first route of a prefix. -/
def firstRoute (s : Rtable) (p : List Bool) : Option Route :=
  (routesOf s p).head?.map s.route

/-- Each datapath has heard last of the first route of each prefix. -/
def Follows (ctrlClients : List CtrlClient) (s : Rtable × List RouteSetRequest) : Prop :=
  ∀ k ∈ ctrlClients, ∀ p, ∀ r ∈ firstRoute s.1 p,
    ∃ m, requestFor ctrlClients k r = some m ∧ lastRequest k.hostnum p s.2 = some m

/-- The search for the place of a route stops at another one: at one of its type that has its origin or is worse. -/
def stops (route : Addr → Route) (r : Route) (x : Addr) : Bool :=
  (route x).type == r.type && (isSameOrigin (route x) r || worse (route x) r)

/-- The addresses between the controllers that the hook needs for a route are known. -/
def Ready (ctrlClients : List CtrlClient) (r : Route) : Prop :=
  ∀ k ∈ ctrlClients, k.hostnum ≠ r.hostnum → ∀ o ∈ ctrlClients, o.hostnum = r.hostnum →
    o.interCon ≠ none ∧ k.interCon ≠ none

/-- A route of some client, if there are any. -/
def Owned (ctrlClients : List CtrlClient) (r : Route) : Prop :=
  ctrlClients = [] ∨ ∃ o ∈ ctrlClients, o.hostnum = r.hostnum

/-- When the datapaths keep following the table through a change. All paths that are compared have types, and the
addresses that are needed are known. A route that comes first is some client's; one that does not, and is not in the
table already, is not marked as the best when it is handed over, or sends all to the next hop of the first one. If the
first route goes, the next one has the same next hop. -/
def Change.Heard (ctrlClients : List CtrlClient) (s : Rtable) : Change → Prop
  | .add a r f =>
    let route := (routeCreate s a r f).route
    let g := routesOf (routeCreate s a r f) r.dest
    (∀ x ∈ g.takeWhile fun x => !stops route r x, (route x).type = r.type → (route x).path.Typed ∧ r.path.Typed) ∧
      ((∃ o ∈ g.find? (stops route r), isIdentical (route o) r = true) ∨
        Ready ctrlClients r ∧
          if ∀ h ∈ g.head?, stops route r h = true then Owned ctrlClients r
          else f.best = true → ∀ k ∈ ctrlClients, ∀ m ∈ requestFor ctrlClients k r,
            ∀ q ∈ firstRoute s r.dest, requestFor ctrlClients k q = some m)
  | .remove a =>
    let g := routesOf s (s.route a).dest
    g.head? = some a → ∀ c ∈ g.tail.head?, ∀ k ∈ ctrlClients,
      requestFor ctrlClients k (s.route c) = requestFor ctrlClients k (s.route a)

section Hook

variable {ctrlClients : List CtrlClient} {k : CtrlClient} {r : Route} {best : Bool}

/-- At most one client has a host number. -/
theorem filter_hostnum (hnd : (ctrlClients.map CtrlClient.hostnum).Nodup) (n : UInt32) :
    (ctrlClients.filter fun c => c.hostnum == n) = (ctrlClients.find? fun c => c.hostnum == n).toList := by
  induction ctrlClients with
  | nil => rfl
  | cons c l ih =>
      rw [List.map_cons, List.nodup_cons] at hnd
      by_cases hc : c.hostnum = n
      · subst hc
        have hnone : (l.filter fun d => d.hostnum == c.hostnum) = [] := by
          rw [List.filter_eq_nil_iff]
          intro d hd hdc
          exact hnd.1 (beq_iff_eq.mp hdc ▸ List.mem_map_of_mem hd)
        simp [hnone]
      · simp [hc, ih hnd.2]

theorem flatMap_ite {α β : Type} (l : List α) (p : α → Bool) (f : α → List β) :
    (l.flatMap fun x => if p x then f x else []) = (l.filter p).flatMap f := by
  induction l with
  | nil => rfl
  | cons x l ih => by_cases hx : p x = true <;> simp [hx, ih]

theorem ctrlClientRouteSet_eq (route : Route) : ctrlClientRouteSet k route best =
    Exec.emits (if best then [⟨k.hostnum, route.dest, route.nexthop0.ifindex.toUInt16,
      route.nexthop0.address⟩] else []) := by
  cases best <;> rfl

/-- The request for a route of another client. -/
def viaOwner (k : CtrlClient) (r : Route) (o : CtrlClient) : Option RouteSetRequest := do
  let owner ← o.interCon
  let con ← k.interCon
  some ⟨k.hostnum, r.dest, con.ifindex.toUInt16, owner.address⟩

theorem requestFor_of_ne (hk : r.hostnum ≠ k.hostnum) :
    requestFor ctrlClients k r = (ctrlClients.find? fun c => c.hostnum == r.hostnum).bind (viaOwner k r) := by
  rw [requestFor, if_neg hk]
  cases ctrlClients.find? fun c => c.hostnum == r.hostnum <;> rfl

/-- The loop over the clients for one of them. -/
theorem clientRequests_eq (hnd : (ctrlClients.map CtrlClient.hostnum).Nodup) (hready : Ready ctrlClients r)
    (hk : k ∈ ctrlClients) :
    (if r.hostnum = k.hostnum then ctrlClientRouteSet k r best
      else ctrlClients.forM fun hostnumCtrlClient => Exec.when (r.hostnum = hostnumCtrlClient.hostnum) do
        let owner ← Exec.deref hostnumCtrlClient.interCon
        let con ← Exec.deref k.interCon
        ctrlClientRouteSet k (r.setNexthop0 ⟨con.ifindex, owner.address⟩) best) =
      Exec.emits (if best then (requestFor ctrlClients k r).toList else []) := by
  by_cases hown : r.hostnum = k.hostnum
  · rw [if_pos hown, ctrlClientRouteSet_eq, requestFor, if_pos hown]
    rfl
  · have howner : ∀ o ∈ ctrlClients, (Exec.when (r.hostnum = o.hostnum) do
        let owner ← Exec.deref o.interCon
        let con ← Exec.deref k.interCon
        ctrlClientRouteSet k (r.setNexthop0 ⟨con.ifindex, owner.address⟩) best) =
        Exec.emits (if o.hostnum == r.hostnum then if best then (viaOwner k r o).toList else [] else []) := by
      intro o ho
      by_cases hro : r.hostnum = o.hostnum
      · obtain ⟨honn, hknn⟩ := hready k hk (Ne.symm hown) o ho hro.symm
        obtain ⟨owner, howner⟩ := Option.ne_none_iff_exists'.mp honn
        obtain ⟨con, hcon⟩ := Option.ne_none_iff_exists'.mp hknn
        rw [Exec.when, if_pos hro, howner, hcon, Exec.deref_some_bind, Exec.deref_some_bind, ctrlClientRouteSet_eq]
        simp [hro, viaOwner, howner, hcon, Route.setNexthop0, Route.nexthop0]
      · rw [Exec.when, if_neg hro]
        simp only [beq_iff_eq, Ne.symm hro, if_false]
        rfl
    rw [if_neg hown, Exec.forM_emits howner, requestFor_of_ne hown]
    rw [flatMap_ite, filter_hostnum hnd]
    cases ctrlClients.find? fun c => c.hostnum == r.hostnum <;> cases best <;> simp

/-- The requests of the hook for a route. -/
theorem siblingCtrlRouteSet_eq (hnd : (ctrlClients.map CtrlClient.hostnum).Nodup) (hready : Ready ctrlClients r) :
    siblingCtrlRouteSet ctrlClients r best =
      Exec.emits (if best then ctrlClients.filterMap fun k => requestFor ctrlClients k r else []) := by
  rw [siblingCtrlRouteSet, Exec.forM_emits fun k hk => clientRequests_eq hnd hready hk]
  cases best with
  | false => exact congrArg Exec.emits (by simp [List.flatMap_eq_nil_iff])
  | true => simp [List.filterMap_eq_flatMap_toList]

/-- Where an address is not known, the hook uses a null pointer. -/
theorem siblingCtrlRouteSet_not_ready (hready : ¬ Ready ctrlClients r) :
    (siblingCtrlRouteSet ctrlClients r best).result = none := by
  rw [Option.eq_none_iff_forall_ne_some]
  rintro ⟨⟩ hresult
  refine hready fun k hk hkr o ho hor => ?_
  have hclient := Exec.result_forM.mp hresult k hk
  rw [if_neg (Ne.symm hkr)] at hclient
  have howner := Exec.result_forM.mp hclient o ho
  rw [Exec.result_when] at howner
  have hbody := howner hor.symm
  rw [Exec.result_bind_eq_some] at hbody
  obtain ⟨owner, howner, hbody⟩ := hbody
  rw [Exec.result_bind_eq_some] at hbody
  obtain ⟨con, hcon, -⟩ := hbody
  rw [Exec.result_deref] at howner hcon
  exact ⟨by simp [howner], by simp [hcon]⟩

/-- A route of some client has a request for each. -/
theorem exists_requestFor (hready : Ready ctrlClients r) (howned : Owned ctrlClients r) (hk : k ∈ ctrlClients) :
    ∃ m, requestFor ctrlClients k r = some m := by
  by_cases hown : r.hostnum = k.hostnum
  · exact ⟨_, if_pos hown⟩
  · obtain rfl | ⟨o, ho, hor⟩ := howned
    · cases hk
    · have hfind : (ctrlClients.find? fun c => c.hostnum == r.hostnum) ≠ none := by
        intro hnone
        simpa [hor] using List.find?_eq_none.mp hnone o ho
      obtain ⟨c, hc⟩ := Option.ne_none_iff_exists'.mp hfind
      have hcr : c.hostnum = r.hostnum := by simpa using List.find?_some hc
      obtain ⟨hcnn, hknn⟩ := hready k hk (Ne.symm hown) c (List.mem_of_find?_eq_some hc) hcr
      obtain ⟨owner, howner⟩ := Option.ne_none_iff_exists'.mp hcnn
      obtain ⟨con, hcon⟩ := Option.ne_none_iff_exists'.mp hknn
      rw [requestFor_of_ne hown, hc]
      simp [viaOwner, howner, hcon]

/-- And one of nobody has none. -/
theorem requestFor_not_owned (howned : ¬ Owned ctrlClients r) :
    ∃ k ∈ ctrlClients, requestFor ctrlClients k r = none := by
  simp only [Owned, not_or, not_exists, not_and] at howned
  obtain ⟨k, l, rfl⟩ := List.exists_cons_of_ne_nil howned.1
  refine ⟨k, by simp, ?_⟩
  have hnone : ((k :: l).find? fun c => c.hostnum == r.hostnum) = none := by
    rw [List.find?_eq_none]
    intro c hc
    simpa using howned.2 c hc
  rw [requestFor_of_ne (Ne.symm (howned.2 k (by simp))), hnone]
  rfl

theorem requestFor_dest {m : RouteSetRequest} (h : requestFor ctrlClients k r = some m) :
    m.client = k.hostnum ∧ m.dest = r.dest := by
  by_cases hown : r.hostnum = k.hostnum
  · rw [requestFor, if_pos hown] at h
    obtain rfl := Option.some.inj h
    exact ⟨rfl, rfl⟩
  · rw [requestFor_of_ne hown, Option.bind_eq_some_iff] at h
    obtain ⟨o, -, h⟩ := h
    simp only [viaOwner, Option.bind_eq_bind, Option.bind_eq_some_iff] at h
    obtain ⟨owner, -, con, -, h⟩ := h
    obtain rfl := Option.some.inj h
    exact ⟨rfl, rfl⟩

variable {p : List Bool} {requests new : List RouteSetRequest}

theorem lastRequest_append : lastRequest k.hostnum p (requests ++ new) =
    (lastRequest k.hostnum p new).or (lastRequest k.hostnum p requests) := by
  rw [lastRequest, List.filter_append, List.getLast?_append]
  rfl

/-- The requests of the hook for another prefix. -/
theorem lastRequest_other (hp : p ≠ r.dest) :
    lastRequest k.hostnum p (ctrlClients.filterMap fun k => requestFor ctrlClients k r) = none := by
  rw [lastRequest, List.getLast?_eq_none_iff, List.filter_eq_nil_iff]
  intro m hm
  obtain ⟨c, -, hc⟩ := List.mem_filterMap.mp hm
  simp [(requestFor_dest hc).2, Ne.symm hp]

/-- The one for its prefix. -/
theorem lastRequest_self (hnd : (ctrlClients.map CtrlClient.hostnum).Nodup) (hk : k ∈ ctrlClients) :
    lastRequest k.hostnum r.dest (ctrlClients.filterMap fun k => requestFor ctrlClients k r) =
      requestFor ctrlClients k r := by
  obtain ⟨l, m, hl⟩ := List.append_of_mem hk
  have hothers : ∀ c ∈ l ++ m, c.hostnum ≠ k.hostnum := by
    intro c hc
    rw [hl, List.map_append, List.map_cons, List.perm_middle.nodup_iff, List.nodup_cons, ← List.map_append] at hnd
    intro hck
    exact hnd.1 (hck ▸ List.mem_map_of_mem hc)
  have hnone : ∀ l' : List CtrlClient, (∀ c ∈ l', c.hostnum ≠ k.hostnum) →
      ((l'.filterMap fun c => requestFor ctrlClients c r).filter fun q => q.client == k.hostnum && q.dest == r.dest) =
        [] := by
    intro l' hl'
    rw [List.filter_eq_nil_iff]
    intro q hq
    obtain ⟨c, hc, hcq⟩ := List.mem_filterMap.mp hq
    simp [(requestFor_dest hcq).1, hl' c hc]
  have hsplit : (ctrlClients.filterMap fun c => requestFor ctrlClients c r) =
      (l.filterMap fun c => requestFor ctrlClients c r) ++
        ((requestFor ctrlClients k r).toList ++ m.filterMap fun c => requestFor ctrlClients c r) := by
    have hmap : (l ++ k :: m).filterMap (fun c => requestFor ctrlClients c r) =
        (l.filterMap fun c => requestFor ctrlClients c r) ++
          ((requestFor ctrlClients k r).toList ++ m.filterMap fun c => requestFor ctrlClients c r) := by
      rw [List.filterMap_append, List.filterMap_cons]
      cases requestFor ctrlClients k r <;> rfl
    rwa [← hl] at hmap
  rw [lastRequest, hsplit, List.filter_append, List.filter_append, hnone l fun c hc => hothers c (by simp [hc]),
    hnone m fun c hc => hothers c (by simp [hc]), List.nil_append, List.append_nil]
  cases hreq : requestFor ctrlClients k r with
  | none => rfl
  | some q => simp [requestFor_dest hreq]

end Hook

/-! ### The first routes -/

section Search

variable {route : Addr → Route} {r : Route} {g before behind : List Addr} {old : Option Addr}

/-- The routes before the place are those at which the search does not stop. -/
theorem takeWhile_stops (h : groupSearch route r g = .ok (before, old, behind)) :
    (g.takeWhile fun x => !stops route r x) = before ∧ g.find? (stops route r) = (old.toList ++ behind).head? := by
  have hs := searched_of_groupSearch h
  have hbefore : ∀ x ∈ before, stops route r x = false := by
    intro x hx
    by_cases htype : (route x).type = r.type
    · obtain ⟨horigin, hle⟩ := hs.passed x hx htype
      simp [stops, horigin, not_worse hle]
    · simp [stops, htype]
  have hhead : ∀ x ∈ (old.toList ++ behind).head?, stops route r x = true := by
    intro x hx
    cases old with
    | some o =>
        obtain rfl := Option.some.inj hx
        simp [stops, (hs.same o rfl).1, (hs.same o rfl).2]
    | none =>
        obtain ⟨htype, -, hworse⟩ := hs.stop rfl x hx
        simp [stops, htype, hworse]
  rw [groupSearch_eq h, List.takeWhile_append_of_pos fun x hx => by simp [hbefore x hx], List.find?_append,
    List.find?_eq_none.mpr fun x hx => by simp [hbefore x hx], Option.none_or]
  cases hrest : old.toList ++ behind with
  | nil => simp
  | cons c l =>
      have hc : stops route r c = true := hhead c (by rw [hrest]; rfl)
      rw [List.takeWhile_cons_of_neg (by simp [hc]), List.find?_cons_of_pos hc, List.append_nil]
      exact ⟨rfl, rfl⟩

/-- The paths that a search compares have types. -/
theorem typed_of_groupSearch (h : groupSearch route r g = .ok (before, old, behind)) :
    ∀ x ∈ g.takeWhile fun x => !stops route r x, (route x).type = r.type →
      (route x).path.Typed ∧ r.path.Typed := by
  rw [(takeWhile_stops h).1]
  exact fun x hx htype => typed_of_noWorse ((searched_of_groupSearch h).passed x hx htype).2

theorem not_typed_of_groupSearch {e : Abort} (h : groupSearch route r g = .error e) :
    ¬ ∀ x ∈ g.takeWhile fun x => !stops route r x, (route x).type = r.type →
      (route x).path.Typed ∧ r.path.Typed := by
  intro hall
  obtain ⟨before, c, behind, rfl, hpassed, htype, horigin, hd⟩ := groupSearch_error_split h
  have hbefore : ∀ x ∈ before, stops route r x = false := by
    intro x hx
    by_cases htype : (route x).type = r.type
    · obtain ⟨horigin, hle⟩ := hpassed x hx htype
      simp [stops, horigin, not_worse hle]
    · simp [stops, htype]
  have hc : stops route r c = false := by simp [stops, horigin, worse, hd]
  refine (routeCmp_error hd).2 (hall c ?_ htype)
  rw [List.takeWhile_append_of_pos fun x hx => by simp [hbefore x hx], List.takeWhile_cons_of_pos (by simp [hc])]
  simp

theorem identical_iff_stops (h : groupSearch route r g = .ok (before, old, behind)) :
    (∃ o ∈ g.find? (stops route r), isIdentical (route o) r = true) ↔ ∃ o ∈ old, isIdentical (route o) r = true := by
  rw [(takeWhile_stops h).2]
  cases old with
  | some o => exact Iff.rfl
  | none =>
      refine iff_of_false ?_ (by simp)
      rintro ⟨c, hc, hid⟩
      have horigin := ((searched_of_groupSearch h).stop rfl c hc).2.1
      simp only [isIdentical, Bool.and_eq_true, beq_iff_eq] at hid
      simp [isSameOrigin, hid.1.2] at horigin

theorem before_eq_nil_iff (h : groupSearch route r g = .ok (before, old, behind)) :
    before = [] ↔ ∀ x ∈ g.head?, stops route r x = true := by
  rw [← (takeWhile_stops h).1]
  cases g with
  | nil => simp
  | cons c g => cases hc : stops route r c <;> simp [hc]

end Search

section First

variable {s : Rtable} {gs : List (List Bool × List Addr)} {a : Addr}

theorem Rep.firstRoute (h : Rep s none gs) (p : List Bool) : firstRoute s p = (groupAt gs p).head?.map s.route := by
  rw [Routes.firstRoute, h.toShape.routesOf]

theorem firstRoute_congr {s' : Rtable} {gs' : List (List Bool × List Addr)} (h : Rep s none gs) (h' : Rep s' none gs')
    {p : List Bool} (hroute : s'.route = s.route) (hgroup : (groupAt gs' p).head? = (groupAt gs p).head?) :
    Routes.firstRoute s' p = Routes.firstRoute s p := by
  rw [h.firstRoute, h'.firstRoute, hroute, hgroup]

/-- A route that is created is not yet the first one of its prefix. -/
theorem Rep.firstRoute_create (h : Rep s none gs) (ha : s.live a = false) (r : Route) (f : Flags) (p : List Bool) :
    Routes.firstRoute (routeCreate s a r f) p = Routes.firstRoute s p := by
  obtain ⟨hrep, hfresh⟩ := h.create ha r f
  rw [h.firstRoute, hrep.firstRoute]
  cases hg : (groupAt gs p).head? with
  | none => rfl
  | some c =>
      have hca : c ≠ a := hrep.ne_of_mem_groupAt hfresh (List.mem_of_mem_head? hg)
      exact congrArg some (Function.update_of_ne hca _ _)

/-- What an addition does to the first routes: it fails where paths without types are compared, changes nothing if the
route is there, puts the route first if the search stops at once, and else leaves the first ones. -/
theorem Rep.add_first (h : Rep s none gs) (hf : Fresh s a) :
    ((∃ e, routeAdd s a = .error e) ∧
      ¬ ∀ x ∈ (routesOf s (s.route a).dest).takeWhile fun x => !stops s.route (s.route a) x,
        (s.route x).type = (s.route a).type → (s.route x).path.Typed ∧ (s.route a).path.Typed) ∨
    (∀ x ∈ (routesOf s (s.route a).dest).takeWhile fun x => !stops s.route (s.route a) x,
        (s.route x).type = (s.route a).type → (s.route x).path.Typed ∧ (s.route a).path.Typed) ∧
      ((∃ s' gs' o, routeAdd s a = .ok (s', o) ∧ o ≠ a ∧ Rep s' none gs' ∧
        (∃ o ∈ (routesOf s (s.route a).dest).find? (stops s.route (s.route a)),
          isIdentical (s.route o) (s.route a) = true) ∧
        ∀ p, Routes.firstRoute s' p = Routes.firstRoute s p) ∨
      ∃ s' gs', routeAdd s a = .ok (s', a) ∧ Rep s' none gs' ∧ s'.route a = s.route a ∧
        (¬ ∃ o ∈ (routesOf s (s.route a).dest).find? (stops s.route (s.route a)),
          isIdentical (s.route o) (s.route a) = true) ∧
        (∀ p, p ≠ (s.route a).dest → Routes.firstRoute s' p = Routes.firstRoute s p) ∧
        if ∀ x ∈ (routesOf s (s.route a).dest).head?, stops s.route (s.route a) x = true then
          (s'.flag a).best = true ∧ Routes.firstRoute s' (s.route a).dest = some (s.route a)
        else (s'.flag a).best = (s.flag a).best ∧
          Routes.firstRoute s' (s.route a).dest = Routes.firstRoute s (s.route a).dest) := by
  rw [h.toShape.routesOf]
  obtain ⟨e, hs, hadd⟩ | ⟨s', gs', before, o, behind, hs, hid, hadd, hoa, hrep, hroute, hgroup, -⟩ |
    ⟨s', gs', before, old, behind, hs, hnew, hadd, hrep, hroute, hgroup, hother, hflag⟩ := h.add_group hf
  · exact .inl ⟨⟨e, hadd⟩, not_typed_of_groupSearch hs⟩
  · refine .inr ⟨typed_of_groupSearch hs, .inl ⟨s', gs', o, hadd, hoa, hrep, ?_, fun p => ?_⟩⟩
    · exact (identical_iff_stops hs).mpr ⟨o, rfl, hid⟩
    · exact firstRoute_congr h hrep hroute (by rw [hgroup])
  · refine .inr ⟨typed_of_groupSearch hs, .inr ⟨s', gs', hadd, hrep, by rw [hroute], ?_, fun p hp => ?_, ?_⟩⟩
    · rw [identical_iff_stops hs]
      rintro ⟨o, ho, hid⟩
      rw [hnew o ho] at hid
      cases hid
    · exact firstRoute_congr h hrep hroute (by rw [hother p hp])
    · have hiff := before_eq_nil_iff hs
      rw [hflag, bestAfter_self, hrep.firstRoute, h.firstRoute, hgroup, hroute]
      by_cases hbefore : before = []
      · rw [if_pos (hiff.mp hbefore), hbefore]
        exact ⟨rfl, rfl⟩
      · rw [if_neg fun hall => hbefore (hiff.mpr hall)]
        obtain ⟨c, l, rfl⟩ := List.exists_cons_of_ne_nil hbefore
        refine ⟨rfl, ?_⟩
        rw [groupSearch_eq hs]
        rfl

/-- What a removal does to the first routes: the next one comes first if the first one goes. -/
theorem Rep.remove_first (h : Rep s none gs) (ha : a ∈ routesOf s (s.route a).dest) :
    ∃ s' gs', routeRemove s a = .ok s' ∧ Rep s' none gs' ∧
      (∀ p, p ≠ (s.route a).dest → Routes.firstRoute s' p = Routes.firstRoute s p) ∧
      if (routesOf s (s.route a).dest).head? = some a then
        Routes.firstRoute s (s.route a).dest = some (s.route a) ∧
          Routes.firstRoute s' (s.route a).dest = (routesOf s (s.route a).dest).tail.head?.map s.route
      else Routes.firstRoute s' (s.route a).dest = Routes.firstRoute s (s.route a).dest := by
  rw [h.toShape.routesOf] at ha ⊢
  obtain ⟨s', gs', before, behind, hat, hrem, hrep, hroute, hsame, hother, -⟩ := h.remove_group ha
  refine ⟨s', gs', hrem, hrep, fun p hp => firstRoute_congr h hrep hroute (by rw [hother p hp]), ?_⟩
  rw [hrep.firstRoute, h.firstRoute, hsame, hat, hroute]
  cases before with
  | nil =>
      rw [List.nil_append, List.nil_append, List.head?_cons, if_pos rfl]
      exact ⟨rfl, rfl⟩
  | cons d before =>
      have hnd := h.nodup.filter fun x => (s.route x).dest == (s.route a).dest
      rw [← h.groupAt_eq, hat] at hnd
      have hda : d ≠ a := by
        rintro rfl
        exact (not_mem_of_nodup hnd).1 (by simp)
      rw [if_neg (by simpa using hda)]
      rfl

end First

section Step

variable {ctrlClients : List CtrlClient} {s s' : Rtable} {gs : List (List Bool × List Addr)} {a : Addr} {r : Route}
  {f : Flags} {requests : List RouteSetRequest}

theorem datapath_add {t : Addr} (h : routeAdd (routeCreate s a r f) a = .ok (s', t)) :
    (datapath ctrlClients).step s (.add a r f) = (do
      Exec.when (t = a) (siblingCtrlRouteSet ctrlClients (s'.route a) (s'.flag a).best)
      pure s') := by
  simp only [datapath, h, Except.toOption, Exec.deref_some_bind]

theorem datapath_add_error {e : Abort} (h : routeAdd (routeCreate s a r f) a = .error e) :
    ((datapath ctrlClients).step s (.add a r f)).result = none := by
  simp [datapath, h, Except.toOption]

/-- A removal is heard by nobody. -/
theorem datapath_remove (h : routeRemove s a = .ok s') :
    (datapath ctrlClients).step s (.remove a) = ⟨[], some s'⟩ := by
  have hunset : siblingCtrlRouteUnset ctrlClients (s.route a) = Exec.emits [] := by
    have hnone : ∀ c ∈ ctrlClients, ctrlClientRouteUnset c (s.route a) = Exec.emits [] := fun _ _ => rfl
    rw [siblingCtrlRouteUnset, Exec.forM_emits hnone]
    exact congrArg Exec.emits (by simp [List.flatMap_eq_nil_iff])
  simp only [datapath, h, Except.toOption, Exec.deref_some_bind, hunset]
  rfl

/-- The datapaths follow where no first route changes and nothing is sent. -/
theorem follows_congr (hfirst : ∀ p, firstRoute s' p = firstRoute s p) :
    Follows ctrlClients (s', requests ++ []) ↔ Follows ctrlClients (s, requests) := by
  simp only [Follows, hfirst, List.append_nil]

/-- Where the first route of one prefix may change, the others are as before. -/
theorem follows_iff_at (hother : ∀ p, p ≠ r.dest → firstRoute s' p = firstRoute s p) (best : Bool)
    (hfollows : Follows ctrlClients (s, requests)) :
    Follows ctrlClients (s', requests ++
        if best then ctrlClients.filterMap fun k => requestFor ctrlClients k r else []) ↔
      ∀ k ∈ ctrlClients, ∀ q ∈ firstRoute s' r.dest, ∃ m, requestFor ctrlClients k q = some m ∧
        lastRequest k.hostnum r.dest (requests ++
          if best then ctrlClients.filterMap fun k => requestFor ctrlClients k r else []) = some m := by
  refine ⟨fun hall k hk => hall k hk r.dest, fun hdest k hk p => ?_⟩
  by_cases hp : p = r.dest
  · subst hp
    exact hdest k hk
  · intro q hq
    rw [hother p hp] at hq
    obtain ⟨m, hm, hlast⟩ := hfollows k hk p q hq
    refine ⟨m, hm, ?_⟩
    rw [lastRequest_append]
    cases best with
    | false => simpa [lastRequest] using hlast
    | true => rw [if_pos rfl, lastRequest_other hp, Option.none_or, hlast]

theorem follows_first (hnd : (ctrlClients.map CtrlClient.hostnum).Nodup) (hready : Ready ctrlClients r)
    (hother : ∀ p, p ≠ r.dest → firstRoute s' p = firstRoute s p) (hfirst : firstRoute s' r.dest = some r)
    (hfollows : Follows ctrlClients (s, requests)) :
    Follows ctrlClients (s', requests ++ ctrlClients.filterMap fun k => requestFor ctrlClients k r) ↔
      Owned ctrlClients r := by
  have hat := follows_iff_at hother true hfollows
  simp only [if_true] at hat
  rw [hat, hfirst]
  constructor
  · intro hall
    by_contra hnot
    obtain ⟨k, hk, hnone⟩ := requestFor_not_owned hnot
    obtain ⟨m, hm, -⟩ := hall k hk r rfl
    rw [hnone] at hm
    cases hm
  · intro howned k hk q hq
    obtain rfl := Option.some.inj hq
    obtain ⟨m, hm⟩ := exists_requestFor hready howned hk
    refine ⟨m, hm, ?_⟩
    rw [lastRequest_append, lastRequest_self hnd hk, hm, Option.some_or]

theorem follows_behind (hnd : (ctrlClients.map CtrlClient.hostnum).Nodup) {best : Bool}
    (hother : ∀ p, p ≠ r.dest → firstRoute s' p = firstRoute s p)
    (hfirst : firstRoute s' r.dest = firstRoute s r.dest) (hsome : firstRoute s r.dest ≠ none)
    (hfollows : Follows ctrlClients (s, requests)) :
    Follows ctrlClients (s', requests ++
        if best then ctrlClients.filterMap fun k => requestFor ctrlClients k r else []) ↔
      (best = true → ∀ k ∈ ctrlClients, ∀ m ∈ requestFor ctrlClients k r,
        ∀ q ∈ firstRoute s r.dest, requestFor ctrlClients k q = some m) := by
  rw [follows_iff_at hother best hfollows, hfirst]
  obtain ⟨q, hq⟩ := Option.ne_none_iff_exists'.mp hsome
  rw [hq]
  cases best with
  | false =>
      refine iff_of_true (fun k hk q' hq' => ?_) (by simp)
      have hlast := hfollows k hk r.dest q' (by rw [hq]; exact hq')
      simpa using hlast
  | true =>
      simp only [if_true, true_implies]
      refine forall₂_congr fun k hk => ?_
      obtain ⟨m₀, hm₀, hlast⟩ := hfollows k hk r.dest q hq
      rw [lastRequest_append, lastRequest_self hnd hk, hlast]
      constructor
      · intro hall m hm q' hq'
        obtain rfl := Option.some.inj hq'
        obtain ⟨m', hm', hor⟩ := hall q rfl
        rw [Option.mem_def.mp hm, Option.some_or] at hor
        rw [hm', hor]
      · intro hall q' hq'
        obtain rfl := Option.some.inj hq'
        refine ⟨m₀, hm₀, ?_⟩
        cases hreq : requestFor ctrlClients k r with
        | none => rw [Option.none_or]
        | some m => rw [Option.some_or, ← hall m hreq q rfl, hm₀]

/-- An addition keeps the datapaths following if and only if it is heard as it should be. -/
theorem Rep.follows_add (hnd : (ctrlClients.map CtrlClient.hostnum).Nodup) (h : Rep s none gs) (ha : s.live a = false)
    (hfollows : Follows ctrlClients (s, requests)) :
    ((Change.add a r f).Heard ctrlClients s → ∃ s' gs',
      ((datapath ctrlClients).step s (.add a r f)).result = some s' ∧ Rep s' none gs' ∧
        Follows ctrlClients (s', requests ++ ((datapath ctrlClients).step s (.add a r f)).outs)) ∧
    (¬ (Change.add a r f).Heard ctrlClients s → ∀ s',
      ((datapath ctrlClients).step s (.add a r f)).result = some s' →
        ¬ Follows ctrlClients (s', requests ++ ((datapath ctrlClients).step s (.add a r f)).outs)) := by
  obtain ⟨hrep, hfresh⟩ := h.create ha r f
  have hr : (routeCreate s a r f).route a = r := by simp [routeCreate]
  have hf : (routeCreate s a r f).flag a = f := by simp [routeCreate]
  have hcreate := h.firstRoute_create ha r f
  have hadd := hrep.add_first hfresh
  rw [hr, hf] at hadd
  simp only [hcreate] at hadd
  obtain ⟨⟨e, hadd⟩, hnot⟩ | ⟨htyped, ⟨s', gs', o, hadd, hoa, hrep', hid, hfirst⟩ |
    ⟨s', gs', hadd, hrep', hroute, hnew, hother, hfirst⟩⟩ := hadd
  · refine ⟨fun hheard => absurd hheard.1 hnot, fun _ s' hs' => ?_⟩
    rw [datapath_add_error hadd] at hs'
    cases hs'
  · have hheard : (Change.add a r f).Heard ctrlClients s := ⟨htyped, .inl hid⟩
    refine ⟨fun _ => ⟨s', gs', ?_, hrep', ?_⟩, fun hno => absurd hheard hno⟩
    · rw [datapath_add hadd, Exec.when, if_neg hoa]
      rfl
    · rw [datapath_add hadd, Exec.when, if_neg hoa]
      exact (follows_congr hfirst).mpr hfollows
  · rw [datapath_add hadd, Exec.when, if_pos rfl, hroute]
    by_cases hready : Ready ctrlClients r
    · have hstep : (do siblingCtrlRouteSet ctrlClients r (s'.flag a).best; pure s') =
          (⟨if (s'.flag a).best then ctrlClients.filterMap fun k => requestFor ctrlClients k r else [], some s'⟩ :
            Exec RouteSetRequest Rtable) := by
        rw [siblingCtrlRouteSet_eq hnd hready, Exec.bind_of_some _ rfl]
        simp
      have hiff : Follows ctrlClients (s', requests ++
            if (s'.flag a).best then ctrlClients.filterMap fun k => requestFor ctrlClients k r else []) ↔
          (Change.add a r f).Heard ctrlClients s := by
        by_cases hstops : ∀ x ∈ (routesOf (routeCreate s a r f) r.dest).head?,
            stops (routeCreate s a r f).route r x = true
        · rw [if_pos hstops] at hfirst
          rw [hfirst.1, if_pos rfl, follows_first hnd hready hother hfirst.2 hfollows]
          simp only [Change.Heard, if_pos hstops]
          exact ⟨fun howned => ⟨htyped, .inr ⟨hready, howned⟩⟩, fun hheard => (hheard.2.resolve_left hnew).2⟩
        · rw [if_neg hstops] at hfirst
          have hsome : Routes.firstRoute s r.dest ≠ none := by
            intro hnone
            rw [← hcreate, Routes.firstRoute, Option.map_eq_none_iff] at hnone
            exact hstops (by simp [hnone])
          rw [hfirst.1, follows_behind hnd hother hfirst.2 hsome hfollows]
          simp only [Change.Heard, if_neg hstops]
          exact ⟨fun hall => ⟨htyped, .inr ⟨hready, hall⟩⟩, fun hheard => (hheard.2.resolve_left hnew).2⟩
      rw [hstep]
      refine ⟨fun hheard => ⟨s', gs', rfl, hrep', hiff.mpr hheard⟩, fun hnot t ht hfollows' => hnot ?_⟩
      obtain rfl := Option.some.inj ht
      exact hiff.mp hfollows'
    · have hnone : (do siblingCtrlRouteSet ctrlClients r (s'.flag a).best; pure s' :
          Exec RouteSetRequest Rtable).result = none := by
        rw [Exec.result_bind, siblingCtrlRouteSet_not_ready hready]
        rfl
      refine ⟨fun hheard => absurd (hheard.2.resolve_left hnew).1 hready, fun _ t ht => ?_⟩
      rw [hnone] at ht
      cases ht

/-- A removal keeps the datapaths following if and only if the route that comes first then has the same next hop. -/
theorem Rep.follows_remove (h : Rep s none gs) (ha : a ∈ routesOf s (s.route a).dest)
    (hfollows : Follows ctrlClients (s, requests)) :
    ∃ s' gs', (datapath ctrlClients).step s (.remove a) = ⟨[], some s'⟩ ∧ Rep s' none gs' ∧
      (Follows ctrlClients (s', requests ++ []) ↔ (Change.remove a).Heard ctrlClients s) := by
  obtain ⟨s', gs', hrem, hrep, hother, hfirst⟩ := h.remove_first ha
  refine ⟨s', gs', datapath_remove hrem, hrep, ?_⟩
  by_cases hhead : (routesOf s (s.route a).dest).head? = some a
  · rw [if_pos hhead] at hfirst
    have hat := follows_iff_at (r := s.route a) hother false hfollows
    simp only [Bool.false_eq_true, if_false] at hat
    rw [hat, hfirst.2]
    simp only [Change.Heard, hhead, true_implies, List.append_nil]
    constructor
    · intro hall c hc k hk
      obtain ⟨m, hm, hlast⟩ := hall k hk (s.route c) (by rw [Option.mem_def.mp hc]; rfl)
      obtain ⟨m', hm', hlast'⟩ := hfollows k hk _ _ hfirst.1
      rw [hm, hm', ← hlast, ← hlast']
    · intro hheard k hk q hq
      obtain ⟨c, hc, rfl⟩ := Option.map_eq_some_iff.mp hq
      obtain ⟨m, hm, hlast⟩ := hfollows k hk _ _ hfirst.1
      exact ⟨m, (hheard c hc k hk).trans hm, hlast⟩
  · rw [if_neg hhead] at hfirst
    refine iff_of_true ((follows_congr fun p => ?_).mpr hfollows) fun hno => absurd hno hhead
    by_cases hp : p = (s.route a).dest
    · rw [hp, hfirst]
    · exact hother p hp

end Step

theorem follows_empty (ctrlClients : List CtrlClient) : Follows ctrlClients (empty, []) := by
  intro k _ p r hr
  rw [empty_rep.firstRoute] at hr
  cases hr

/-- The datapaths follow the table always, if and only if every change is heard as it should be. -/
theorem follows_iff_heard (ctrlClients : List CtrlClient) (hnd : (ctrlClients.map CtrlClient.hostnum).Nodup)
    (es : List Change) (hlegal : (datapath ctrlClients).traced.AllSteps (fun s e => e.Legal s.1) (empty, []) es) :
    (datapath ctrlClients).traced.Always (Follows ctrlClients) (empty, []) es ↔
      (datapath ctrlClients).traced.AllSteps (fun s e => e.Heard ctrlClients s.1) (empty, []) es := by
  refine (datapath ctrlClients).traced.always_iff_of_legal
    (J := fun s => (∃ gs, Rep s.1 none gs) ∧ Follows ctrlClients s) (fun s h => h.2) ?_ ?_
    ⟨⟨[], empty_rep⟩, follows_empty ctrlClients⟩ hlegal
  · rintro ⟨s, requests⟩ e ⟨⟨gs, hrep⟩, hfollows⟩ hlegal hheard
    cases e with
    | add a r f =>
        obtain ⟨s', gs', hs', hrep', hfollows'⟩ := (hrep.follows_add hnd hlegal hfollows).1 hheard
        exact ⟨(s', _), (datapath ctrlClients).result_traced_eq_some.mpr ⟨hs', rfl⟩, ⟨gs', hrep'⟩, hfollows'⟩
    | remove a =>
        obtain ⟨s', gs', hstep, hrep', hiff⟩ := hrep.follows_remove hlegal hfollows
        refine ⟨(s', requests ++ []), (datapath ctrlClients).result_traced_eq_some.mpr ?_, ⟨gs', hrep'⟩, hiff.mpr hheard⟩
        rw [hstep]
        exact ⟨rfl, rfl⟩
  · rintro ⟨s, requests⟩ e ⟨s', requests'⟩ ⟨⟨gs, hrep⟩, hfollows⟩ hlegal hnot hstep hfollows'
    obtain ⟨hs', rfl⟩ := (datapath ctrlClients).result_traced_eq_some.mp hstep
    cases e with
    | add a r f => exact (hrep.follows_add hnd hlegal hfollows).2 hnot s' hs' hfollows'
    | remove a =>
        obtain ⟨t, gs', hstep, -, hiff⟩ := hrep.follows_remove hlegal hfollows
        rw [hstep] at hs' hfollows'
        obtain rfl := Option.some.inj hs'
        exact hnot (hiff.mp hfollows')

instance (ctrlClients : List CtrlClient) (r : Route) : Decidable (Ready ctrlClients r) :=
  inferInstanceAs (Decidable (∀ k ∈ ctrlClients, _ → ∀ o ∈ ctrlClients, _ → _ ∧ _))

instance (ctrlClients : List CtrlClient) (r : Route) : Decidable (Owned ctrlClients r) :=
  inferInstanceAs (Decidable (_ ∨ _))

instance (ctrlClients : List CtrlClient) (s : Rtable) : (e : Change) → Decidable (e.Heard ctrlClients s)
  | .add _ _ _ => inferInstanceAs (Decidable (_ ∧ _))
  | .remove _ => inferInstanceAs (Decidable (_ → _))

/-- Two clients, whose addresses are known. -/
def twoClients : List CtrlClient :=
  [⟨1, some ⟨[1], 4⟩⟩, ⟨2, some ⟨[2], 5⟩⟩]

/-- A route of the first client over a next hop. -/
def routeVia (advRouter cost : UInt32) (nexthop : UInt8) : Route :=
  { sampleRoute [true, false] advRouter cost with nexthop := [⟨3, [nexthop]⟩], hostnum := 1 }

theorem follows_iff_heard_two :
    (datapath twoClients).traced.Always (Follows twoClients) (empty, [])
      [.add 0 (routeVia 1 10 7) default, .add 1 (routeVia 2 5 8) default, .add 2 (routeVia 2 4 9) default, .remove 0] :=
  (follows_iff_heard twoClients (by decide) _ (by decide)).mpr (by decide)

/-- The best one of two routes goes, and nobody is told of the other one. -/
theorem not_follows : (datapath twoClients).traced.AllSteps (fun s e => e.Legal s.1) (empty, [])
      [.add 0 (routeVia 1 5 7) default, .add 1 (routeVia 2 10 8) default, .remove 0] ∧
    ¬ (datapath twoClients).traced.Always (Follows twoClients) (empty, [])
      [.add 0 (routeVia 1 5 7) default, .add 1 (routeVia 2 10 8) default, .remove 0] := by
  refine ⟨by decide, fun h => ?_⟩
  obtain ⟨t, ht, hfollows⟩ := Machine.Always.run _ h
  obtain ⟨t', ht', r, hr, hne⟩ : ∃ t, ((datapath twoClients).traced.run (empty, [])
      [.add 0 (routeVia 1 5 7) default, .add 1 (routeVia 2 10 8) default, .remove 0]).result = some t ∧
      ∃ r ∈ firstRoute t.1 [true, false],
        requestFor twoClients ⟨1, some ⟨[1], 4⟩⟩ r ≠ lastRequest 1 [true, false] t.2 :=
    exists_of_any (by decide)
  obtain rfl := Option.some.inj (ht.symm.trans ht')
  obtain ⟨m, hm, hlast⟩ := hfollows ⟨1, some ⟨[1], 4⟩⟩ (by decide) [true, false] r hr
  exact hne (hm.trans hlast.symm)

end Harry.Routes
