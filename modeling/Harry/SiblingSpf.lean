import Harry.PriorityQueue
import Harry.SiblingLsa
import Harry.SiblingLsdbTree
import Harry.SiblingRouteRun

/-! `ospf6_spf.c`: the shortest path tree of an area. The candidates are in a priority queue, the vertices that are
installed in a table of routes, whose `route_option` is the vertex. An LSA is read as memory: the bytes from the end of
its header on, of which only those up to the length in the header belong to it. The lists of children, which are there
for display, are left out, as are messages for debugging. -/

namespace Harry.Spf

open Harry.Rfp Harry.Base Harry.Table Harry.Sibling Harry.Routes Harry.Queue

/-- An LSA in the database of an area or of an interface. -/
structure SpfLsa where
  header : LsaHeader
  bytes : Nat → UInt8
  deriving Inhabited

/-- `OSPF6_LSA_END`, seen from the end of the header. -/
def SpfLsa.size (lsa : SpfLsa) : Nat :=
  lsa.header.length.toNat - 20

/-- A 32-bit number in an LSA, in host order. -/
def SpfLsa.word (lsa : SpfLsa) (i : Nat) : UInt32 :=
  ntohl (lsa.bytes i) (lsa.bytes (i + 1)) (lsa.bytes (i + 2)) (lsa.bytes (i + 3))

/-- A link description: a pointer into an LSA. -/
structure Lsdesc where
  lsa : SpfLsa
  offset : Nat

/-- The kinds of links in a Router-LSA. -/
def pointToPoint : UInt8 := 1
def transitNetwork : UInt8 := 2

/-- `ROUTER_LSDESC_GET_METRIC` and the other fields of a `struct ospf6_router_lsdesc`. -/
def Lsdesc.type (d : Lsdesc) : UInt8 := d.lsa.bytes d.offset

def Lsdesc.metric (d : Lsdesc) : UInt32 :=
  UInt32.ofNat ((d.lsa.bytes (d.offset + 2)).toNat * 2 ^ 8 + (d.lsa.bytes (d.offset + 3)).toNat)

def Lsdesc.ifid (d : Lsdesc) : UInt32 := d.lsa.word (d.offset + 4)

def Lsdesc.nbrIfid (d : Lsdesc) : UInt32 := d.lsa.word (d.offset + 8)

def Lsdesc.nbrRouterId (d : Lsdesc) : UInt32 := d.lsa.word (d.offset + 12)

/-- `NETWORK_LSDESC_GET_NBR_ROUTERID`. -/
def Lsdesc.routerId (d : Lsdesc) : UInt32 := d.lsa.word d.offset

inductive VertexType where
  | router | network
  deriving DecidableEq, Inhabited

/-- The type of the link descriptions in an LSA. -/
def vertexType (lsa : SpfLsa) : VertexType :=
  if lsa.header.type = lstypeRouter then .router else .network

/-- The size of a link description. -/
def VertexType.lsdescSize : VertexType → Nat
  | .router => 16
  | .network => 4

/-- The link descriptions of an LSA that is read as one of a type. -/
def lsdescs (type : VertexType) (lsa : SpfLsa) : List Lsdesc :=
  (List.range ((lsa.size - 4) / type.lsdescSize)).map fun i => ⟨lsa, 4 + type.lsdescSize * i⟩

/-- `struct ospf6_vertex`. The next hops are those that have been written; those behind them are clear. -/
structure Vertex where
  type : VertexType
  vertexId : List Bool
  lsa : SpfLsa
  cost : UInt32
  hops : UInt8
  nexthop : List Nexthop
  capability : UInt8
  options : List UInt8
  deriving Inhabited

/-- The prefix that `ospf6_linkstate_prefix` makes. -/
def linkstatePrefix (advRouter id : UInt32) : List Bool :=
  byteBits (htonl advRouter ++ htonl id)

/-- A vertex of a type. -/
def newVertex (type : VertexType) (lsa : SpfLsa) : Vertex where
  type
  vertexId := linkstatePrefix lsa.header.advRouter lsa.header.id
  lsa
  cost := 0
  hops := 0
  nexthop := []
  capability := lsa.bytes 0
  options := [lsa.bytes 1, lsa.bytes 2, lsa.bytes 3]

/-- `ospf6_vertex_create`. -/
def vertexCreate (lsa : SpfLsa) : Except Abort Vertex :=
  if lsa.header.type = lstypeRouter then .ok (newVertex .router lsa)
  else if lsa.header.type = lstypeNetwork then .ok (newVertex .network lsa)
  else .error .assertion

/-- `ospf6_vertex_cmp`. -/
def vertexCmp (va vb : Vertex) : Int :=
  if va.cost ≠ vb.cost then intDiff va.cost vb.cost else va.hops.toNat - vb.hops.toNat

def multiPathLimit : Nat := 4

/-- `ospf6_nexthop_is_set`. -/
def Nexthop.isSet (n : Nexthop) : Bool :=
  n.ifindex ≠ 0 ∨ ∃ b ∈ n.address, b ≠ 0

/-- The next hops that a loop up to the first one that is not set copies. -/
def setNexthops (l : List Nexthop) : List Nexthop :=
  (l.takeWhile Nexthop.isSet).take multiPathLimit

/-- The loop that merges a next hop into those of a route: it goes to the first one that is not set. -/
def mergeNexthop (l : List Nexthop) (n : Nexthop) : List Nexthop :=
  if n ∈ l then l else if l.length < multiPathLimit then l ++ [n] else l

/-- What the calculation reads: the database of the area and, by index, those of the interfaces. -/
structure Topology where
  lsdb : List SpfLsa
  interface : UInt32 → Option (List SpfLsa)

/-- `ospf6_lsdb_lookup`. -/
def lookup (lsdb : List SpfLsa) (key : LsaKey) : Option SpfLsa :=
  lsdb.find? fun lsa => lsa.header.key = key

/-- `ospf6_lsdesc_lsa`. -/
def lsdescLsa (net : Topology) (lsdesc : Lsdesc) (v : Vertex) : Option SpfLsa :=
  let key : LsaKey :=
    if v.type = .network then ⟨lstypeRouter, 0, lsdesc.routerId⟩
    else if lsdesc.type = pointToPoint then ⟨lstypeRouter, 0, lsdesc.nbrRouterId⟩
    else if lsdesc.type = transitNetwork then ⟨lstypeNetwork, lsdesc.nbrIfid, lsdesc.nbrRouterId⟩
    else ⟨0, 0, 0⟩
  lookup net.lsdb key

/-- Whether `ospf6_lsdesc_backlink` finds a link back at one place. -/
def isBacklink (lsa : SpfLsa) (lsdesc : Lsdesc) (v : Vertex) (backlink : Lsdesc) : Bool :=
  if lsa.header.type = lstypeNetwork ∧ backlink.routerId = v.lsa.header.advRouter then true
  else if v.type = .network ∧ backlink.type = transitNetwork ∧ backlink.nbrRouterId = v.lsa.header.advRouter ∧
      backlink.nbrIfid = v.lsa.header.id then true
  else if ¬ (backlink.type = pointToPoint ∧ lsdesc.type = pointToPoint) then false
  else if ¬ (backlink.nbrIfid = lsdesc.ifid ∧ lsdesc.nbrIfid = backlink.ifid) then false
  else if ¬ (backlink.nbrRouterId = v.lsa.header.advRouter ∧ lsdesc.nbrRouterId = lsa.header.advRouter) then false
  else true

/-- `ospf6_lsdesc_backlink`: whether there is a link back. -/
def lsdescBacklink (lsa : SpfLsa) (lsdesc : Lsdesc) (v : Vertex) : Except Abort Bool :=
  let type := vertexType lsa
  (lsdescs type lsa).foldlM (fun found backlink =>
    if lsa.header.type = lstypeNetwork ∧ v.type = .network then .error .assertion
    else .ok (found || isBacklink lsa lsdesc v backlink)) false

/-- The link-local address in a Link-LSA. -/
def linklocalAddr (lsa : SpfLsa) : List UInt8 :=
  (List.range 16).map fun i => lsa.bytes (4 + i)

/-- `ospf6_nexthop_calc`, for a vertex without next hops. -/
def nexthopCalc (net : Topology) (w v : Vertex) (lsdesc : Lsdesc) : Except Abort Vertex :=
  if w.type ≠ .router then .error .assertion
  else
    let ifindex := if v.type = .network then (v.nexthop.head?.map Nexthop.ifindex).getD 0 else lsdesc.ifid
    match net.interface ifindex with
    | none => .ok w
    | some lsdb =>
      let advRouter := if v.type = .network then lsdesc.routerId else lsdesc.nbrRouterId
      let lsas := lsdb.filter fun lsa =>
        lsa.header.type = lstypeLink ∧ lsa.header.advRouter = advRouter ∧
          ¬ (v.type = .router ∧ lsdesc.nbrIfid ≠ lsa.header.id)
      .ok { w with nexthop := (lsas.take multiPathLimit).map fun lsa => ⟨ifindex, linklocalAddr lsa⟩ }

/-! ### The calculation -/

/-- A table of vertices: the routes, the vertices that are their `route_option`, and the first address that is free from
there on. -/
structure SpfTable where
  routes : Rtable
  option : Addr → Vertex
  brk : Addr

/-- The types that `ospf6_spf_install` sets. -/
def destTypeLinkstate : UInt8 := 4
def pathTypeIntra : UInt8 := 1

/-- The route of a vertex. -/
def vertexRoute (v : Vertex) (hostnum : UInt32) : Route :=
  { type := destTypeLinkstate
    dest := v.vertexId
    path :=
      { origin := ⟨v.lsa.header.type, v.lsa.header.id, v.lsa.header.advRouter⟩
        routerBits := v.capability
        prefixOptions := 0
        options := v.options
        areaId := 0
        type := pathTypeIntra
        metricType := 1
        cost := v.cost
        costE2 := v.hops.toUInt32 }
    nexthop := setNexthops v.nexthop
    hostnum }

/-- A route without flags. -/
def noFlags : Flags := ⟨false, false, false, false, false⟩

/-- `ospf6_spf_install`; whether the vertex is a new one. -/
def spfInstall (v : Vertex) (table : SpfTable) (hostnum : UInt32) : Except Abort (SpfTable × Bool) :=
  let (routes, route) := routeLookup table.routes v.vertexId
  match route with
  | some a =>
    let r := routes.route a
    if r.path.cost < v.cost then .ok ({ table with routes }, false)
    else if r.path.cost = v.cost then
      if (table.option a).hops ≤ v.hops then
        let r := { r with nexthop := (setNexthops v.nexthop).foldl mergeNexthop r.nexthop }
        .ok ({ table with routes := { routes with route := Function.update routes.route a r } }, false)
      else .error .assertion
    else .error .assertion
  | none => do
    let a := table.brk
    let (routes, _) ← routeAdd (routeCreate routes a (vertexRoute v hostnum) noFlags) a
    pure (⟨routes, Function.update table.option a v, a + 1⟩, true)

/-- The candidate for a link, and what it takes to get there. -/
def candidate (net : Topology) (v : Vertex) (lsdesc : Lsdesc) (lsa : SpfLsa) : Except Abort Vertex := do
  let w ← vertexCreate lsa
  let w : Vertex :=
    if v.type = .router then
      { w with cost := v.cost + lsdesc.metric, hops := v.hops + if w.type = .network then 0 else 1 }
    else { w with cost := v.cost, hops := v.hops + 1 }
  if w.hops = 0 then pure { w with nexthop := [⟨lsdesc.ifid, List.replicate 16 0⟩] }
  else if w.hops = 1 ∧ v.hops = 0 then nexthopCalc net w v lsdesc
  else pure { w with nexthop := setNexthops v.nexthop }

/-- What is done for a link description of a vertex. -/
def visitLink (net : Topology) (v : Vertex) (queue : Pqueue Vertex) (lsdesc : Lsdesc) :
    Except Abort (Pqueue Vertex) :=
  match lsdescLsa net lsdesc v with
  | none => .ok queue
  | some lsa => do
    let found ← lsdescBacklink lsa lsdesc v
    if found then do
      let w ← candidate net v lsdesc lsa
      pure (pqueueEnqueue vertexCmp w queue)
    else pure queue

/-- The loop of `ospf6_spf_calculation`. It is cut off after a number of candidates. -/
def spfLoop (net : Topology) (hostnum : UInt32) : Nat → SpfTable → Pqueue Vertex → Except Abort SpfTable
  | 0, table, queue => if queue.size = 0 then .ok table else .error .assertion
  | n + 1, table, queue =>
    if queue.size = 0 then .ok table
    else do
      let (v, queue) := pqueueDequeue vertexCmp queue
      let (table, new) ← spfInstall v table hostnum
      if new then do
        let queue ← (lsdescs v.type v.lsa).foldlM (visitLink net v) queue
        spfLoop net hostnum n table queue
      else spfLoop net hostnum n table queue

/-- `ospf6_spf_table_finish`. -/
def spfTableFinish (table : SpfTable) : Except Abort SpfTable := do
  let routes ← routeRemoveAll table.routes
  pure { table with routes }

/-- The address `::1`. -/
def loopback : List UInt8 :=
  List.replicate 15 0 ++ [1]

/-- `ospf6_spf_calculation`, for so many candidates. -/
def spfCalculation (n : Nat) (net : Topology) (routerId : UInt32) (table : SpfTable) (hostnum : UInt32) :
    Except Abort SpfTable := do
  let table ← spfTableFinish table
  match lookup net.lsdb ⟨lstypeRouter, 0, routerId⟩ with
  | none => pure table
  | some lsa => do
    let root ← vertexCreate lsa
    let root := { root with nexthop := [⟨0, loopback⟩] }
    spfLoop net hostnum n table (pqueueEnqueue vertexCmp root pqueueCreate)

/-- The LSA that a link leads to, with the cost of the link and the router hops it takes, if it is present in both
directions. -/
def link (net : Topology) (v : Vertex) (lsdesc : Lsdesc) : Option (SpfLsa × Nat × Nat) :=
  (lsdescLsa net lsdesc v).bind fun lsa =>
    if (lsdescs (vertexType lsa) lsa).any (isBacklink lsa lsdesc v) then
      some (lsa,
        if v.type = .router then (lsdesc.metric.toNat, if vertexType lsa = .network then 0 else 1) else (0, 1))
    else none

def links (net : Topology) (v : Vertex) : List (SpfLsa × Nat × Nat) :=
  (lsdescs v.type v.lsa).filterMap (link net v)

/-- The paths from the root over links that are present in both directions, each with its cost and its router hops. -/
inductive Path (net : Topology) (routerId : UInt32) : LsaKey → Nat → Nat → Prop where
  | root {lsa : SpfLsa} (h : lookup net.lsdb ⟨lstypeRouter, 0, routerId⟩ = some lsa) :
      Path net routerId ⟨lstypeRouter, 0, routerId⟩ 0 0
  | link {k : LsaKey} {c n : Nat} {v : SpfLsa} {x : SpfLsa × Nat × Nat} (h : Path net routerId k c n)
      (hv : lookup net.lsdb k = some v) (hx : x ∈ links net (newVertex (vertexType v) v)) :
      Path net routerId x.1.header.key (c + x.2.1) (n + x.2.2)

/-- The LSAs that the calculation comes to: Router-LSAs with the id zero, and Network-LSAs with another one. -/
def SpfLsa.Proper (lsa : SpfLsa) : Prop :=
  lsa.header.type = lstypeRouter ∧ lsa.header.id = 0 ∨ lsa.header.type = lstypeNetwork ∧ lsa.header.id ≠ 0

/-- A database in which no LSA has the type zero, and no Network-LSA the id zero. -/
structure Topology.Sound (net : Topology) : Prop where
  type : ∀ lsa ∈ net.lsdb, lsa.header.type ≠ 0
  network : ∀ lsa ∈ net.lsdb, lsa.header.type = lstypeNetwork → lsa.header.id ≠ 0

section Links

variable {net : Topology} {lsa w : SpfLsa} {v v' : Vertex} {d : Lsdesc} {k : LsaKey}

theorem lookup_key {lsdb : List SpfLsa} (h : lookup lsdb k = some lsa) : lsa ∈ lsdb ∧ lsa.header.key = k :=
  ⟨List.mem_of_find?_eq_some h, by simpa using List.find?_some h⟩

theorem lookup_self {lsdb : List SpfLsa} (h : lookup lsdb k = some lsa) :
    lookup lsdb lsa.header.key = some lsa := by
  rw [(lookup_key h).2]
  exact h

/-- A link from a network leads to a router. -/
theorem lsdescLsa_router (h : lsdescLsa net d v = some lsa) (hv : v.type = .network) :
    lsa.header.type = lstypeRouter := by
  have hk := (lookup_key h).2
  rw [if_pos hv] at hk
  exact (LsaKey.mk.inj hk).1

/-- A link leads to a router or a network; one from a network leads to a router. -/
theorem lsdescLsa_proper (hs : net.Sound) (h : lsdescLsa net d v = some lsa) :
    lookup net.lsdb lsa.header.key = some lsa ∧ lsa.Proper ∧ (v.type = .network → lsa.header.type = lstypeRouter) := by
  have hkey := lookup_key h
  refine ⟨lookup_self h, ?_, lsdescLsa_router h⟩
  have htype := hs.type lsa hkey.1
  have hid := hs.network lsa hkey.1
  have hk := hkey.2
  simp only [LsaHeader.key] at hk
  split_ifs at hk with h1 h2 h3 <;> obtain ⟨ht, hi, -⟩ := LsaKey.mk.inj hk
  · exact .inl ⟨ht, hi⟩
  · exact .inl ⟨ht, hi⟩
  · exact .inr ⟨ht, hid ht⟩
  · exact absurd ht htype

theorem vertexType_router (h : lsa.header.type = lstypeRouter) : vertexType lsa = .router := if_pos h

theorem SpfLsa.Proper.router_iff (h : lsa.Proper) : lsa.header.type = lstypeRouter ↔ lsa.header.id = 0 := by
  obtain ⟨ht, hi⟩ | ⟨ht, hi⟩ := h
  · exact ⟨fun _ => hi, fun _ => ht⟩
  · exact ⟨fun h => absurd (ht.symm.trans h) (by decide), fun h => absurd h hi⟩

theorem vertexCreate_eq (h : lsa.Proper) : vertexCreate lsa = .ok (newVertex (vertexType lsa) lsa) := by
  obtain ⟨ht, -⟩ | ⟨ht, -⟩ := h
  · rw [vertexCreate, if_pos ht, vertexType_router ht]
  · have hne : ¬ lsa.header.type = lstypeRouter := by
      rw [ht]
      decide
    rw [vertexCreate, if_neg hne, if_pos ht, vertexType, if_neg hne]

/-- Two proper LSAs with one prefix are one. -/
theorem key_of_vertexId {lsa' : SpfLsa} (h : lsa.Proper) (h' : lsa'.Proper)
    (hp : linkstatePrefix lsa.header.advRouter lsa.header.id = linkstatePrefix lsa'.header.advRouter lsa'.header.id) :
    lsa.header.key = lsa'.header.key := by
  have hb := (byteBits_inj (by simp [htonl])).mp hp
  obtain ⟨ha, hi⟩ := List.append_inj hb (by simp [htonl])
  have ha := LsdbTree.htonl_injective ha
  have hi := LsdbTree.htonl_injective hi
  have ht : lsa.header.type = lsa'.header.type := by
    obtain ⟨ht, h0⟩ | ⟨ht, h0⟩ := h
    · rw [ht, h'.router_iff.mpr (hi ▸ h0)]
    · obtain ⟨ht', h0'⟩ | ⟨ht', h0'⟩ := h'
      · exact absurd (hi.trans h0') h0
      · rw [ht, ht']
  simp only [LsaHeader.key, ht, ha, hi]

theorem lsdescBacklink_eq (h : ¬ (lsa.header.type = lstypeNetwork ∧ v.type = .network)) :
    lsdescBacklink lsa d v = .ok ((lsdescs (vertexType lsa) lsa).any (isBacklink lsa d v)) := by
  have hfold : ∀ (l : List Lsdesc) (found : Bool), l.foldlM (fun found backlink =>
      if lsa.header.type = lstypeNetwork ∧ v.type = .network then .error .assertion
      else .ok (found || isBacklink lsa d v backlink)) found =
        (.ok (found || l.any (isBacklink lsa d v)) : Except Abort Bool) := by
    intro l
    induction l with
    | nil => simp [pure, Except.pure]
    | cons b l ih =>
        intro found
        rw [List.foldlM_cons, if_neg h]
        simp only [bind, Except.bind, ih, List.any_cons, Bool.or_assoc]
  rw [lsdescBacklink, hfold, Bool.false_or]

/-- A link does not depend on the distance of the vertex it comes from. -/
theorem link_congr (ht : v.type = v'.type) (hl : v.lsa = v'.lsa) : link net v d = link net v' d := by
  have hback : ∀ lsa, isBacklink lsa d v = isBacklink lsa d v' := by
    intro lsa
    funext b
    simp only [isBacklink, ht, hl]
  simp only [link, lsdescLsa, ht, hback]

theorem links_congr (ht : v.type = v'.type) (hl : v.lsa = v'.lsa) : links net v = links net v' := by
  rw [links, links, ht, hl]
  exact List.filterMap_congr fun d _ => link_congr ht hl

end Links

end Harry.Spf
