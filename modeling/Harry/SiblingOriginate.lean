import Harry.BaseBits
import Harry.BaseBuffer
import Harry.SiblingIntra
import Harry.SiblingPrefixes
import Harry.SiblingRouteRun

/-! The origination of Router-LSAs, of Link-LSAs and of the Intra-Area-Prefix-LSAs of transit networks in
`ospf6_intra.c`, down to the bytes. An LSA is laid out in a buffer of `OSPF6_MAX_LSASIZE` bytes that has been cleared;
what is written to it is followed in the outputs of a call, wherever it goes. -/

namespace Harry.Originate

open Harry.Base Harry.Rfp Harry.Sibling Harry.Routes Harry.Spf Harry.Prefixes

/-- `OSPF6_MAX_LSASIZE`. -/
def maxLsasize : Nat := 4096

abbrev Buffer := Memory UInt8

/-- A buffer behind a `memset`. -/
def cleared : Buffer := fun _ => 0

/-- Some writes, one after another. -/
def stores (b : Buffer) (l : List (Store UInt8)) : Exec (Store UInt8) Buffer := do
  Exec.emits l
  pure (l.foldl Memory.put b)

/-- An array of so many bytes. -/
def sized (n : Nat) (bs : List UInt8) : List UInt8 :=
  (bs ++ List.replicate n 0).take n

/-- `Fill LSA Header`, `ospf6_lsa_checksum` and `ospf6_lsa_create`, of an LSA that ends at an offset. -/
def fillHeader (b : Buffer) (type : UInt16) (id advRouter seqnum : UInt32) (length : Nat) :
    Exec (Store UInt8) (Buffer × SpfLsa) := do
  let header : LsaHeader := ⟨type, id, advRouter, seqnum, 0, UInt16.ofNat length⟩
  let header := { header with checksum := lsaChecksum header (b.at 20 (length - 20)) }
  let b ← stores b [⟨0, htons 0⟩, ⟨2, htons16 header.type⟩, ⟨4, htonl header.id⟩, ⟨8, htonl header.advRouter⟩,
    ⟨12, htonl header.seqnum⟩, ⟨18, htons16 header.length⟩, ⟨16, htons16 header.checksum⟩]
  pure (b, ⟨header, fun i => b (20 + i)⟩)

/-- What becomes of an origination: the LSA is originated, an old one is purged, or nothing is done. -/
inductive Outcome where
  | lsa (lsa : SpfLsa)
  | purge
  | nothing

/-- The address of a prefix. -/
def addr6 (dest : List Bool) : List UInt8 :=
  (unpack (List.replicate 16 8) (dest ++ List.replicate (128 - dest.length) false)).map UInt8.ofNat

/-- `OSPF6_PREFIX_BODY`, as far as `OSPF6_PREFIX_SPACE` goes. -/
def prefixBody (dest : List Bool) : List UInt8 :=
  (addr6 dest).take (prefixSpace dest.length)

/-- The record of a route written at `op`. -/
def prefixStores (op : Nat) (route : Route) : List (Store UInt8) :=
  [⟨op, [UInt8.ofNat route.dest.length]⟩, ⟨op + 1, [route.path.prefixOptions]⟩, ⟨op + 2, htons 0⟩,
    ⟨op + 4, prefixBody route.dest⟩]

/-- The records of routes, one behind another. -/
def prefixesStores : Nat → List Route → List (Store UInt8)
  | _, [] => []
  | op, route :: routes => prefixStores op route ++ prefixesStores (op + prefixSize route.dest.length) routes

/-- The size of the records of some prefixes. -/
def sizeOf (dests : List (List Bool)) : Nat :=
  (dests.map fun dest => prefixSize dest.length).sum

/-- The routes of a table, by a loop with `ospf6_route_head` and `ospf6_route_next`. -/
def allRoutes (s : Rtable) : Except Abort (List Route) :=
  (forEach (fun x a => .ok (x.1, x.2 ++ [x.1.route a])) (s, [])).map Prod.snd

/-- `ospf6_link_lsa_originate`. -/
def linkLsaOriginate (oi : Interface) (options : List UInt8) (routerId seqnum : UInt32) (routeConnected : Rtable) :
    Exec (Store UInt8) Outcome :=
  match oi.linklocalAddr with
  | none => pure .purge
  | some linklocalAddr => do
    let b ← stores cleared [⟨20, [oi.priority]⟩, ⟨21, sized 3 options⟩, ⟨24, sized 16 linklocalAddr⟩,
      ⟨40, htonl (UInt32.ofNat routeConnected.count)⟩]
    let routes ← Exec.deref (allRoutes routeConnected).toOption
    let b ← stores b (prefixesStores 44 routes)
    let x ← fillHeader b lstypeLink oi.ifindex routerId seqnum (44 + sizeOf (routes.map Route.dest))
    pure (.lsa x.2)

/-- `ospf6_route_best_next`. If there is no other route, the last one stays locked. -/
def routeBestNext (s : Rtable) (a : Addr) : Except Abort (Rtable × Option Addr) := do
  let rnode ← need (s.rnode a)
  let found ← need (Table.nextInfo s.table.top.nodes.length (Table.routeLockNode s.table rnode) rnode)
  let (s, next) ← takeInfo s found
  match next with
  | none => pure (s, none)
  | some c => do
    let s ← routeUnlock s a
    let s ← routeLock s c
    pure (s, some c)

/-- The routes that a loop with `ospf6_route_best_next` comes to. The number bounds the runs of the loop. -/
def bestFrom : Nat → Rtable → Option Addr → Except Abort (List Route)
  | _, _, none => .ok []
  | 0, _, some _ => .error .assertion
  | n + 1, s, some a => do
    let (s', next) ← routeBestNext s a
    let routes ← bestFrom n s' next
    pure (s.route a :: routes)

def bestRoutes (s : Rtable) : Except Abort (List Route) := do
  let (s, route) ← routeHead s
  bestFrom s.count s route

/-- `ospf6_route_add` of new routes, the first of them at a given address. -/
def addRoutes : Addr → Rtable → List Route → Except Abort Rtable
  | _, s, [] => .ok s
  | a, s, route :: routes => do
    let s ← step s (.add a route default)
    addRoutes (a + 1) s routes

/-- An LSA is the router's own or that of a neighbor in the state Full. -/
def Counts (oi : Interface) (routerId : UInt32) (lsa : SpfLsa) : Prop :=
  lsa.header.advRouter = routerId ∨
    ((oi.neighborLookup lsa.header.advRouter).any fun on => on.state = .full) = true

instance decidableCounts (oi : Interface) (routerId : UInt32) (lsa : SpfLsa) : Decidable (Counts oi routerId lsa) :=
  inferInstanceAs (Decidable (_ ∨ _))

/-- The loop over the Link-LSAs of an interface: the routes for their prefixes. -/
def linkRoutes (oi : Interface) (routerId areaId : UInt32) (maxage : SpfLsa → Bool) : List SpfLsa → Option (List Route)
  | [] => some []
  | lsa :: lsas =>
    if maxage lsa ∨ ¬ Counts oi routerId lsa then linkRoutes oi routerId areaId maxage lsas
    else do
      let prefixes ← (linkPrefixes lsa).result
      let routes ← linkRoutes oi routerId areaId maxage lsas
      pure (prefixes.map (linkRoute areaId lsa) ++ routes)

/-- `ospf6_intra_prefix_lsa_originate_transit`. `maxage` is `OSPF6_LSA_IS_MAXAGE`; the Link-LSAs are met in the order of
the database. -/
def intraPrefixLsaOriginateTransit (oi : Interface) (routerId areaId seqnum : UInt32) (maxage : SpfLsa → Bool)
    (lsdb : List SpfLsa) : Exec (Store UInt8) Outcome := do
  let b ← stores cleared [⟨22, htons16 lstypeNetwork⟩, ⟨24, htonl oi.ifindex⟩, ⟨28, htonl routerId⟩]
  if oi.state ≠ .dr ∨ oi.fullNeighbors = [] then pure .purge
  else do
    let routes ← Exec.deref
      (linkRoutes oi routerId areaId maxage (lsdb.filter fun lsa => lsa.header.type = lstypeLink))
    let routeAdvertise ← Exec.deref (addRoutes 0 empty routes).toOption
    let best ← Exec.deref (bestRoutes routeAdvertise).toOption
    let b ← stores b (prefixesStores 32 best)
    -- `prefix_num` is an `unsigned short`
    let prefixNum := best.length % 2 ^ 16
    if prefixNum = 0 then pure .nothing
    else do
      let b ← stores b [⟨20, htons prefixNum⟩]
      let x ← fillHeader b lstypeIntraPrefix oi.ifindex routerId seqnum (32 + sizeOf (best.map Route.dest))
      pure (.lsa x.2)

/-! ### Router-LSAs -/

/-- `if_is_broadcast`, a stub. -/
def ifIsBroadcast (_ : Interface) : Bool := true

/-- `if_is_pointopoint`, a stub as well. -/
def ifIsPointopoint (_ : Interface) : Bool := false

/-- `struct ospf6_router_lsdesc`. -/
structure RouterLsdesc where
  type : UInt8
  metric : UInt16
  interfaceId : UInt32
  neighborInterfaceId : UInt32
  neighborRouterId : UInt32

/-- A link description written at `lsdesc`. -/
def lsdescStores (lsdesc : Nat) (d : RouterLsdesc) : List (Store UInt8) :=
  [⟨lsdesc, [d.type]⟩, ⟨lsdesc + 2, htons16 d.metric⟩, ⟨lsdesc + 4, htonl d.interfaceId⟩,
    ⟨lsdesc + 8, htonl d.neighborInterfaceId⟩, ⟨lsdesc + 12, htonl d.neighborRouterId⟩]

def lsdescsStores : Nat → List RouterLsdesc → List (Store UInt8)
  | _, [] => []
  | lsdesc, d :: ds => lsdescStores lsdesc d ++ lsdescsStores (lsdesc + 16) ds

/-- The link descriptions of a point-to-point interface: one for each full adjacency. -/
def pointToPointLsdescs (oi : Interface) : List RouterLsdesc :=
  oi.fullNeighbors.map fun on => ⟨pointToPoint, oi.cost.toUInt16, oi.ifindex, on.ifindex, on.routerId⟩

/-- The link description of a broadcast interface, if it is a transit. -/
def broadcastLsdescs (routerId : UInt32) (oi : Interface) : List RouterLsdesc :=
  if oi.state = .dr then [⟨transitNetwork, oi.cost.toUInt16, oi.ifindex, oi.ifindex, routerId⟩]
  else
    match (oi.neighborLookup oi.drouter).filter fun on => on.state = .full with
    | none => []
    | some drouter => [⟨transitNetwork, oi.cost.toUInt16, oi.ifindex, drouter.ifindex, drouter.routerId⟩]

/-- The link descriptions of an interface. -/
def describe (routerId : UInt32) (oi : Interface) : List RouterLsdesc :=
  (if ifIsPointopoint oi then pointToPointLsdescs oi else []) ++
    (if ifIsBroadcast oi then broadcastLsdescs routerId oi else [])

/-- What the loop over the interfaces works on: the buffer, the end of the link descriptions in it, the number of the
next Router-LSA, and those that have been originated. -/
structure RouterState where
  buffer : Buffer
  lsdesc : Nat
  linkStateId : UInt32
  lsas : List SpfLsa

/-- A Router-LSA that ends at `lsdesc`. -/
def routerInstance (routerId : UInt32) (seqnum : UInt32 → UInt32) (x : RouterState) : Exec (Store UInt8) RouterState := do
  let y ← fillHeader x.buffer lstypeRouter x.linkStateId routerId (seqnum x.linkStateId) x.lsdesc
  pure { x with buffer := y.1, linkStateId := x.linkStateId + 1, lsas := x.lsas ++ [y.2] }

/-- The buffer for the next Router-LSA. What is cleared is as long as the LSA behind its header was, but begins with the
link descriptions. -/
def routerReset (x : RouterState) : Exec (Store UInt8) RouterState := do
  let b ← stores x.buffer [⟨24, List.replicate (x.lsdesc - 20) 0⟩]
  pure { x with buffer := b, lsdesc := 24 }

/-- The link descriptions of an interface are written behind those that are there. -/
def routerDescribe (routerId : UInt32) (oi : Interface) (x : RouterState) : Exec (Store UInt8) RouterState := do
  let ds := describe routerId oi
  let b ← stores x.buffer (lsdescsStores x.lsdesc ds)
  pure { x with buffer := b, lsdesc := x.lsdesc + 16 * ds.length }

/-- The loop over the interfaces of an area; it is left where the size limit has no room for a single description. -/
def routerLoop (sizeLimit routerId : UInt32) (seqnum : UInt32 → UInt32) :
    List Interface → RouterState → Exec (Store UInt8) (Option RouterState)
  | [], x => pure (some x)
  | oi :: ois, x =>
    if oi.state = .down ∨ oi.state = .loopback ∨ oi.fullNeighbors = [] then
      routerLoop sizeLimit routerId seqnum ois x
    else if sizeLimit ≠ 0 ∧ sizeLimit.toNat < x.lsdesc + 16 then
      if x.lsdesc = 24 then pure none
      else do
        let x ← routerInstance routerId seqnum x
        let x ← routerReset x
        let x ← routerDescribe routerId oi x
        routerLoop sizeLimit routerId seqnum ois x
    else do
      let x ← routerDescribe routerId oi x
      routerLoop sizeLimit routerId seqnum ois x

/-- `ospf6_router_lsa_originate`: the Router-LSAs that are originated, and the number from which on older ones are
purged. `bits` says what kind of border router this is. -/
def routerLsaOriginate (sizeLimit routerId : UInt32) (bits : UInt8) (seqnum : UInt32 → UInt32)
    (ifList : List Interface) : Exec (Store UInt8) (Option (List SpfLsa × UInt32)) := do
  let b ← stores cleared [⟨21, [0, 0, 0x13]⟩, ⟨20, [bits]⟩]
  let last ← routerLoop sizeLimit routerId seqnum ifList ⟨b, 24, 0, []⟩
  match last with
  | none => pure none
  | some x =>
    if x.lsdesc = 24 then pure (some (x.lsas, x.linkStateId))
    else do
      let x ← routerInstance routerId seqnum x
      pure (some (x.lsas, x.linkStateId))

section Prefixes

theorem length_addr6 (dest : List Bool) : (addr6 dest).length = 16 := by
  rw [addr6, List.length_map, length_unpack, List.length_replicate]

theorem byteBits_addr6 {dest : List Bool} (h : dest.length ≤ 128) :
    byteBits (addr6 dest) = dest ++ List.replicate (128 - dest.length) false := by
  refine byteBits_unpack ?_
  rw [List.length_append, List.length_replicate]
  omega

theorem length_prefixBody {dest : List Bool} (h : dest.length ≤ 128) :
    (prefixBody dest).length = prefixSpace dest.length := by
  rw [prefixBody, List.length_take, length_addr6, Nat.min_eq_left ((prefixSpace_le_iff _).mpr h)]

theorem contiguous_prefixStores {r : Route} {op : Nat} : Contiguous op (prefixStores op r) :=
  ⟨rfl, rfl, rfl, rfl, trivial⟩

theorem length_written_prefixStores {r : Route} {op : Nat} (h : r.dest.length ≤ 128) :
    (written (prefixStores op r)).length = prefixSize r.dest.length := by
  simp only [written, prefixStores, List.flatMap_cons, List.flatMap_nil, List.length_append, length_prefixBody h,
    prefixSize]
  simp only [List.length_cons, List.length_nil, htons]
  omega

theorem contiguous_prefixesStores {rs : List Route} {op : Nat} (h : ∀ r ∈ rs, r.dest.length ≤ 128) :
    Contiguous op (prefixesStores op rs) ∧ (written (prefixesStores op rs)).length = sizeOf (rs.map Route.dest) := by
  induction rs generalizing op with
  | nil => exact ⟨trivial, rfl⟩
  | cons r rs ih =>
      have hr := @length_written_prefixStores r op (h r (by simp))
      obtain ⟨hrest, hlen⟩ := @ih (op + prefixSize r.dest.length) fun x hx => h x (by simp [hx])
      constructor
      · rw [prefixesStores, contiguous_append_iff, hr]
        exact ⟨contiguous_prefixStores, hrest⟩
      · rw [prefixesStores, written, List.flatMap_append, List.length_append]
        change (written _).length + (written _).length = _
        rw [hr, hlen]
        rfl

end Prefixes

section Header

variable {b : Buffer} {type : UInt16} {id advRouter seqnum : UInt32} {length : Nat}

/-- An LSA holds what is in its buffer behind the header. -/
theorem fillHeader_spec : ∃ b' lsa, (fillHeader b type id advRouter seqnum length).result = some (b', lsa) ∧
    lsa.header.type = type ∧ lsa.header.id = id ∧ lsa.header.advRouter = advRouter ∧ lsa.header.seqnum = seqnum ∧
    lsa.header.length = UInt16.ofNat length ∧ ∀ o n, bytesFrom lsa o n = b.at (20 + o) n := by
  refine ⟨_, _, rfl, rfl, rfl, rfl, rfl, rfl, fun o n => ?_⟩
  have hbehind : ∀ c : Buffer, bytesFrom ⟨⟨type, id, advRouter, seqnum, 0, 0⟩, fun i => c (20 + i)⟩ o n =
      c.at (20 + o) n := by
    intro c
    simp only [bytesFrom, Memory.at, Nat.add_assoc]
  refine (hbehind _).trans (Memory.at_puts_of_disjoint fun st hst => .inr ?_)
  simp only [List.mem_cons, List.not_mem_nil, or_false] at hst
  obtain rfl | rfl | rfl | rfl | rfl | rfl | rfl := hst <;> simp [htonl, htons, htons16] <;> omega

end Header

end Harry.Originate
