import Harry.SiblingCalculation
import Harry.SiblingDatapath
import Harry.SiblingOriginate
import Harry.SiblingSpfTree

/-! The routing calculation that the exchange of messages leads to: the shortest path tree of an area, the routes of the
area from it, the table of the router, whose hooks have the controllers set the routes, and the prefixes of a transit
network. The calculations are those of the modules on routes; here they send what the hooks send. It is followed for
LSAs that hold what is read of them and for masked prefixes, as the tables compare bits behind a prefix as well; there
is no result where one is read beyond its end or not masked, where an assertion fails, or where the prefixes of a
transit network outgrow their buffer. -/

namespace Harry.Calculation

open Harry.Base Harry.Rfp Harry.Table Harry.Sibling Harry.Routes Exec

section Calculation

variable (ctrlClients : List Routes.CtrlClient)

/-- The hooks of the table of an area. The table of the router, which they change, has hooks of its own. -/
def routeHook (x : Rtable × Addr) : HookCall → Exec RouteSetRequest (Rtable × Addr)
  | .add r f => do
    let top ← (datapath ctrlClients).step x.1 (.add x.2 r f)
    pure (top, x.2 + 1)
  | .remove r => do
    let (top, copy) ← Exec.deref (routeLookupIdentical x.1 r).toOption
    match copy with
    | none => pure (top, x.2)
    | some c => do
      let top ← (datapath ctrlClients).step top (.remove c)
      pure (top, x.2)

theorem routeHook_endsAs (x : Rtable × Addr) (h : HookCall) :
    EndsAs (routeHook ctrlClients x h) (Routes.routeHook x h) := by
  cases h with
  | add r f =>
      intro y hy
      obtain ⟨top, hstep, hy⟩ := Exec.result_bind_eq_some.mp hy
      obtain ⟨⟨s, a⟩, hadd, hs⟩ := Exec.result_bind_eq_some.mp hstep
      obtain ⟨-, -, hs⟩ := Exec.result_bind_eq_some.mp hs
      have hadd' := endsAs_deref (ω := RouteSetRequest) _ _ hadd
      simp only [Routes.routeHook, hadd', bind, Except.bind]
      rw [← Option.some.inj hy, Option.some.inj hs]
      rfl
  | remove r =>
      refine .bind (endsAs_deref _) fun y => ?_
      obtain ⟨top, copy⟩ := y
      cases copy with
      | none => exact .pure _
      | some c =>
          refine .bind (fun s hs => ?_) fun s => .pure _
          obtain ⟨s', hremove, hs⟩ := Exec.result_bind_eq_some.mp hs
          obtain ⟨-, -, hs⟩ := Exec.result_bind_eq_some.mp hs
          rw [endsAs_deref _ _ hremove, Option.some.inj hs]

/-- `ospf6_route_add` to the table of the area, with its hook. -/
def areaRouteAdd (t : Tables) (r : Route) : Exec RouteSetRequest Tables := do
  let (area, a) ← Exec.deref (routeAdd (routeCreate t.area t.unused r default) t.unused).toOption
  if a = t.unused then do
    let (top, unused) ← routeHook ctrlClients (t.top, t.unused + 1) (.add (area.route a) (area.flag a))
    pure ⟨area, top, unused⟩
  else pure ⟨area, t.top, t.unused + 1⟩

theorem areaRouteAdd_endsAs (t : Tables) (r : Route) :
    EndsAs (areaRouteAdd ctrlClients t r) (Routes.areaRouteAdd true t r) := by
  refine .bind (endsAs_deref _) fun y => ?_
  obtain ⟨area, a⟩ := y
  exact .ite ⟨fun h => ⟨rfl, h⟩, And.right⟩ (.bind (routeHook_endsAs ctrlClients _ _) fun _ => .pure _) (.pure _)

/-- `ospf6_intra_prefix_lsa_add`, when the LSA comes into the database. -/
def intraPrefixLsaAdd (v : View) (t : Tables) (lsa : Spf.SpfLsa) : Exec RouteSetRequest Tables := do
  let rs ← Exec.deref (lsaRoutes v lsa)
  rs.foldlM (areaRouteAdd ctrlClients) t

theorem intraPrefixLsaAdd_endsAs (v : View) (t : Tables) (lsa : Spf.SpfLsa) :
    EndsAs (intraPrefixLsaAdd ctrlClients v t lsa) (Routes.intraPrefixLsaAdd true v t lsa) := by
  refine .bind (fun rs hrs => ?_) fun rs => endsAs_foldlM (areaRouteAdd_endsAs ctrlClients) rs t
  have hrs : lsaRoutes v lsa = some rs := hrs
  rw [hrs]
  rfl

/-- The body of the last loop of the calculation. -/
def settleRoute (hostnum : UInt32) (x : Rtable × (Rtable × Addr)) (a : Addr) :
    Exec RouteSetRequest (Rtable × (Rtable × Addr)) := do
  let s := setFlag x.1 a Flags.again
  let (s, top) ←
    if (s.flag a).remove then do
      let s ← Exec.deref (routeRemove s a).toOption
      let top ← routeHook ctrlClients x.2 (.remove (s.route a))
      pure (s, top)
    else if (s.flag a).add || (s.flag a).change then do
      let s := setHostnum s a hostnum
      let top ← routeHook ctrlClients x.2 (.add (s.route a) (s.flag a))
      pure (s, top)
    else pure (s, x.2)
  pure (setFlag s a fun _ => .none, top)

theorem settleRoute_endsAs (hostnum : UInt32) (x : Rtable × (Rtable × Addr)) (a : Addr) :
    EndsAs (settleRoute ctrlClients hostnum x a) (Routes.settleRoute hostnum x a) := by
  refine .ite Iff.rfl ?_ (.ite Iff.rfl ?_ (.pure _))
  · exact .bind (endsAs_deref _) fun s => .bind (routeHook_endsAs ctrlClients _ _) fun _ => .pure _
  · exact .bind (routeHook_endsAs ctrlClients _ _) fun _ => .pure _

/-- A loop over a table whose turns send. -/
def loopFrom {ω σ : Type} (visit : Rtable × σ → Addr → Exec ω (Rtable × σ)) :
    Nat → Rtable × σ → Option Addr → Exec ω (Rtable × σ)
  | _, x, none => pure x
  | 0, _, some _ => Exec.undefined
  | n + 1, x, some a => do
    let (s, e) ← visit x a
    let (s, c) ← Exec.deref (routeNext s a).toOption
    loopFrom visit n (s, e) c

def forEach {ω σ : Type} (visit : Rtable × σ → Addr → Exec ω (Rtable × σ)) (x : Rtable × σ) : Exec ω (Rtable × σ) := do
  let (s, a) ← Exec.deref (routeHead x.1).toOption
  loopFrom visit x.1.count (s, x.2) a

theorem forEach_endsAs {ω σ : Type} {visit : Rtable × σ → Addr → Exec ω (Rtable × σ)}
    {visit' : Rtable × σ → Addr → Except Abort (Rtable × σ)} (h : ∀ x a, EndsAs (visit x a) (visit' x a))
    (x : Rtable × σ) : EndsAs (forEach visit x) (Routes.forEach visit' x) := by
  have hloop : ∀ n x c, EndsAs (loopFrom visit n x c) (Routes.loopFrom visit' n x c) := by
    intro n
    induction n with
    | zero =>
        intro x c
        cases c with
        | none => exact .pure x
        | some a => exact nofun
    | succ n ih =>
        intro x c
        cases c with
        | none => exact .pure x
        | some a => exact .bind (h x a) fun y => .bind (endsAs_deref _) fun z => ih _ _
  exact .bind (endsAs_deref _) fun y => hloop _ _ _

/-- `ospf6_intra_route_calculation`. The hooks of the table are out of the way until the last loop. -/
def intraRouteCalculation (v : View) (lsas : List Spf.SpfLsa) (hostnum : UInt32) (t : Tables) :
    Exec RouteSetRequest Tables := do
  let (area, _) ← Exec.deref (Routes.forEach markRoute (t.area, ())).toOption
  let t ← Exec.deref (lsas.foldlM (Routes.intraPrefixLsaAdd false v) { t with area }).toOption
  let (area, top, unused) ← forEach (settleRoute ctrlClients hostnum) (t.area, (t.top, t.unused))
  pure ⟨area, top, unused⟩

theorem intraRouteCalculation_endsAs (v : View) (lsas : List Spf.SpfLsa) (hostnum : UInt32) (t : Tables) :
    EndsAs (intraRouteCalculation ctrlClients v lsas hostnum t) (Routes.intraRouteCalculation v lsas hostnum t) :=
  .bind (endsAs_deref _) fun _ => .bind (endsAs_deref _) fun _ =>
    .bind (forEach_endsAs (settleRoute_endsAs ctrlClients hostnum) _) fun _ => .pure _

end Calculation

/-! What is read of LSAs -/

/-- An LSA of a database as memory. -/
def toSpf (l : LsaInfo) : Spf.SpfLsa where
  header := l.header
  bytes i := l.body.getD i 0

/-- No bit is set behind the length of a prefix. -/
def Masked (d : Prefixes.Decoded) : Prop :=
  ∀ b ∈ (byteBits d.addr).drop d.prefixLength.toNat, b = false

/-- The area and the table of vertices, as `ospf6_intra_prefix_lsa_add` sees them. Which LSAs are too old has been found
out before. -/
def view (areaId : UInt32) (table : Spf.SpfTable) : View where
  areaId
  spfTable b := (routeLookup table.routes b).2.map table.routes.route
  maxage _ := false

/-- The entry of the vertex that an Intra-Area-Prefix-LSA refers to. -/
def lsEntry (v : View) (lsa : Spf.SpfLsa) : Option Route :=
  if Prefixes.half lsa 2 = lstypeRouter then v.spfTable (Spf.linkstatePrefix (lsa.word 8) 0)
  else if Prefixes.half lsa 2 = lstypeNetwork then v.spfTable (Spf.linkstatePrefix (lsa.word 8) (lsa.word 4))
  else none

/-- An Intra-Area-Prefix-LSA holds what is read of it, and the prefixes that routes are made for are masked. -/
def IntraReadable (v : View) (lsa : Spf.SpfLsa) : Prop :=
  v.Fits lsa ∧ ((lsEntry v lsa).isSome → ∀ d ∈ (Prefixes.intraPrefixes lsa).result.getD [], Masked d)

/-- A Link-LSA does, too. -/
def LinkReadable (lsa : Spf.SpfLsa) : Prop :=
  Prefixes.LinkFits lsa ∧ ∀ d ∈ (Prefixes.linkPrefixes lsa).result.getD [], Masked d

/-- The Router- and Network-LSAs of the area hold the fixed part that vertices are made of, and the Link-LSAs of the
interfaces a link-local address. -/
def Whole (lsas : List LsaInfo) (links : List (UInt32 × List LsaInfo)) : Prop :=
  (∀ l ∈ lsas, l.header.type = lstypeRouter ∨ l.header.type = lstypeNetwork → 4 ≤ (toSpf l).size) ∧
    ∀ i ∈ links, ∀ l ∈ i.2, l.header.type = lstypeLink → 20 ≤ (toSpf l).size

instance (d : Prefixes.Decoded) : Decidable (Masked d) := inferInstanceAs (Decidable (∀ b ∈ _, b = false))

instance (v : View) (lsa : Spf.SpfLsa) : Decidable (IntraReadable v lsa) :=
  inferInstanceAs (Decidable (_ ∧ (_ → ∀ d ∈ _, Masked d)))

instance (lsa : Spf.SpfLsa) : Decidable (LinkReadable lsa) :=
  inferInstanceAs (Decidable ((_ ∧ Prefixes.Narrow _ _ _ _) ∧ ∀ d ∈ _, Masked d))

instance (lsas : List LsaInfo) (links : List (UInt32 × List LsaInfo)) : Decidable (Whole lsas links) :=
  inferInstanceAs (Decidable ((∀ l ∈ lsas, _ ∨ _ → _) ∧ ∀ i ∈ links, ∀ l ∈ i.2, _ → _))

/-- What the SPF calculation reads: the database of the area and those of the interfaces. -/
def topology (lsas : List LsaInfo) (links : List (UInt32 × List LsaInfo)) : Spf.Topology where
  lsdb := lsas.map toSpf
  interface ifindex := (links.find? fun i => i.1 == ifindex).map fun i => i.2.map toSpf

/-- A bound on the candidates: the root, and one for each link description of a vertex. -/
def candidates (net : Spf.Topology) : Nat :=
  (net.lsdb.map fun lsa => (Spf.lsdescs (Spf.vertexType lsa) lsa).length).sum + 1

/-- The Intra-Area-Prefix-LSAs that are not too old. -/
def prefixLsas (lsas : List (LsaInfo × Bool)) : List Spf.SpfLsa :=
  (lsas.filter fun l => l.1.header.type == lstypeIntraPrefix && !l.2).map fun l => toSpf l.1

/-- The tables of an area: its vertices and its routes. -/
structure AreaTables where
  spf : Spf.SpfTable
  routes : Rtable

/-- The controllers, in the order in which the sibling has them and each with its own number; the table of the router,
those of the areas, and the first address that has not been given to a route. -/
structure Routing where
  ctrlClients : List Routes.CtrlClient
  nodup : (ctrlClients.map Routes.CtrlClient.hostnum).Nodup
  top : Rtable
  area : Nat → AreaTables
  unused : Addr

/-- No route at all. -/
def Routing.create (ctrlClients : List Routes.CtrlClient)
    (nodup : (ctrlClients.map Routes.CtrlClient.hostnum).Nodup) : Routing :=
  ⟨ctrlClients, nodup, empty, fun _ => ⟨Spf.spfTableCreate, empty⟩, 0⟩

/-- The tables of an area and of the router. -/
def Routing.tables (r : Routing) (oa : Nat) : Tables := ⟨(r.area oa).routes, r.top, r.unused⟩

def Routing.put (r : Routing) (oa : Nat) (spf : Spf.SpfTable) (t : Tables) : Routing :=
  { r with area := Function.update r.area oa ⟨spf, t.area⟩, top := t.top, unused := t.unused }

/-- The message that `ctrl_client_route_set` makes of a request, behind its header. It has been cleared before, and the
16 bits of `htons` go to a field of 32. -/
def requestBody (m : RouteSetRequest) : List UInt8 :=
  htons m.dest.length ++ [0, 0] ++ Originate.addr6 m.dest ++ htons16 m.ifindex ++ [0, 0] ++ m.nexthopAddr

/-- The messages of a calculation, each with the client it goes to. -/
def sending {α : Type} (ctrlClients : List Routes.CtrlClient) (x : Exec RouteSetRequest α) : Exec (Nat × List UInt8) α :=
  ⟨x.outs.map fun m => (ctrlClients.findIdx fun k => k.hostnum == m.client, requestBody m), x.result⟩

/-- `ospf6_intra_prefix_lsa_add`, of an LSA that is not too old. -/
def Routing.intraPrefixLsaAdd (r : Routing) (oa : Nat) (areaId : UInt32) (l : LsaInfo) : Exec RouteSetRequest Routing := do
  let v := view areaId (r.area oa).spf
  Exec.require (IntraReadable v (toSpf l))
  let t ← Calculation.intraPrefixLsaAdd r.ctrlClients v (r.tables oa) (toSpf l)
  pure (r.put oa (r.area oa).spf t)

/-- `ospf6_spf_calculation`, and `ospf6_intra_route_calculation` behind it. -/
def Routing.spfCalculation (r : Routing) (routerId : UInt32) (oa : Nat) (areaId hostnum : UInt32)
    (lsas : List (LsaInfo × Bool)) (links : List (UInt32 × List LsaInfo)) : Exec RouteSetRequest Routing := do
  let net := topology (lsas.map Prod.fst) links
  Exec.require (Whole (lsas.map Prod.fst) links)
  let spf ← Exec.deref (Spf.spfCalculation (candidates net) net routerId (r.area oa).spf hostnum).toOption
  let v := view areaId spf
  Exec.require (∀ lsa ∈ prefixLsas lsas, IntraReadable v lsa)
  let t ← intraRouteCalculation r.ctrlClients v (prefixLsas lsas) hostnum (r.tables oa)
  pure (r.put oa spf t)

/-- The prefixes that `ospf6_intra_prefix_lsa_originate_transit` writes, if its buffer has room for them. -/
def transitPrefixes (oi : Interface) (routerId areaId : UInt32) (links : List LsaInfo) : Option (List (List UInt8)) := do
  let lsas := links.map toSpf
  guard (∀ lsa ∈ lsas, Originate.Counts oi routerId lsa → LinkReadable lsa)
  let routes ← Originate.linkRoutes oi routerId areaId (fun _ => false) lsas
  let routeAdvertise ← (Originate.addRoutes 0 empty routes).toOption
  let best ← (Originate.bestRoutes routeAdvertise).toOption
  guard (32 + Originate.sizeOf (best.map Route.dest) ≤ Originate.maxLsasize)
  pure (if best.length % 2 ^ 16 = 0 then [] else best.map fun route => written (Originate.prefixStores 0 route))

instance : RouteCalc Routing where
  intraPrefixLsaAdd r oa areaId l := sending r.ctrlClients (r.intraPrefixLsaAdd oa areaId l)
  spfCalculation r routerId oa areaId hostnum lsas links :=
    sending r.ctrlClients (r.spfCalculation routerId oa areaId hostnum lsas links)
  transitPrefixes := transitPrefixes

section Calculated

variable {r r' : Routing} {oa : Nat} {areaId routerId hostnum : UInt32} {lsas : List (LsaInfo × Bool)}
  {links : List (UInt32 × List LsaInfo)} {l : LsaInfo}

/-- The tables that an Intra-Area-Prefix-LSA leaves. -/
theorem intraPrefixLsaAdd_calculated (h : (RouteCalc.intraPrefixLsaAdd r oa areaId l).result = some r') :
    ∃ t, Routes.intraPrefixLsaAdd true (view areaId (r.area oa).spf) (r.tables oa) (toSpf l) = .ok t ∧
      r' = r.put oa (r.area oa).spf t := by
  have h : (r.intraPrefixLsaAdd oa areaId l).result = some r' := h
  obtain ⟨-, -, h⟩ := Exec.result_bind_eq_some.mp h
  obtain ⟨t, ht, h⟩ := Exec.result_bind_eq_some.mp h
  exact ⟨t, intraPrefixLsaAdd_endsAs r.ctrlClients _ _ _ t ht, (Option.some.inj h).symm⟩

/-- The tables that an SPF calculation leaves: the shortest paths, and the routes of the area from them. -/
theorem spfCalculation_calculated
    (h : (RouteCalc.spfCalculation r routerId oa areaId hostnum lsas links).result = some r') :
    ∃ spf t, Spf.spfCalculation (candidates (topology (lsas.map Prod.fst) links)) (topology (lsas.map Prod.fst) links)
        routerId (r.area oa).spf hostnum = .ok spf ∧
      Routes.intraRouteCalculation (view areaId spf) (prefixLsas lsas) hostnum (r.tables oa) = .ok t ∧
      r' = r.put oa spf t := by
  have h : (r.spfCalculation routerId oa areaId hostnum lsas links).result = some r' := h
  obtain ⟨-, -, h⟩ := Exec.result_bind_eq_some.mp h
  obtain ⟨spf, hspf, h⟩ := Exec.result_bind_eq_some.mp h
  obtain ⟨-, -, h⟩ := Exec.result_bind_eq_some.mp h
  obtain ⟨t, ht, h⟩ := Exec.result_bind_eq_some.mp h
  exact ⟨spf, t, endsAs_deref (ω := RouteSetRequest) _ _ hspf,
    intraRouteCalculation_endsAs r.ctrlClients _ _ _ _ t ht, (Option.some.inj h).symm⟩

end Calculated

end Harry.Calculation
