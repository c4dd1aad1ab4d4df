import Harry.BaseLinked
import Harry.RouteNode
import Harry.SiblingState

/-! `ospf6_route.c`: tables of routes. The routes with one prefix are a group; the first route of the group hangs on
the node of the prefix in the tree of `lib/table.c`, and one doubly linked list goes through all groups. A route is
known by its address; it is freed when it is unlocked for the last time. A function that fails an assertion, touches a
freed route or does not come to an end has no result but says so; the assertions of `ospf6_route_cmp` on the type of a
path are told apart from the others. The hooks of a table are left out, as are the times at which a route was
installed and changed. The prefixes of the routes are masked ones: the tree goes by the bits up to the length, and
`prefix_same` compares the rest as well. The locks of nodes and routes are numbers without a bound, as those of the
source are while there are fewer than 2^32 holds of each. -/

namespace Harry.Routes

open Harry.Base Harry.Table Harry.Sibling

/-- `struct ospf6_ls_origin`. -/
structure LsOrigin where
  type : UInt16
  id : UInt32
  advRouter : UInt32
  deriving DecidableEq, Inhabited

/-- `struct ospf6_path`. -/
structure Path where
  origin : LsOrigin
  routerBits : UInt8
  prefixOptions : UInt8
  options : List UInt8
  areaId : UInt32
  type : UInt8
  metricType : UInt8
  cost : UInt32
  costE2 : UInt32
  deriving DecidableEq, Inhabited

/-- `struct ospf6_nexthop`. -/
structure Nexthop where
  ifindex : UInt32
  address : List UInt8
  deriving DecidableEq, Inhabited

/-- The fields of a `struct ospf6_route` that its table does not set. The destination is the string of the bits of a
masked prefix. -/
structure Route where
  type : UInt8
  dest : List Bool
  path : Path
  nexthop : List Nexthop
  hostnum : UInt32
  deriving DecidableEq, Inhabited

/-- The flags of a route. -/
structure Flags where
  change : Bool
  add : Bool
  remove : Bool
  best : Bool
  wasRemoved : Bool
  deriving DecidableEq, Inhabited

inductive Abort where
  | assertion
  | routeCmp
  deriving DecidableEq

def need {α : Type} : Option α → Except Abort α
  | none => .error .assertion
  | some a => .ok a

/-- `ospf6_route_is_same`. -/
def isSame (ra rb : Route) : Bool :=
  ra.dest == rb.dest

/-- `ospf6_route_is_same_origin`. -/
def isSameOrigin (ra rb : Route) : Bool :=
  ra.path.origin == rb.path.origin

/-- `ospf6_route_is_identical`. -/
def isIdentical (ra rb : Route) : Bool :=
  ra.type == rb.type && ra.dest == rb.dest && ra.path == rb.path && ra.nexthop == rb.nexthop

/-- A path has one of the types that `ospf6_route_cmp` asserts. -/
def Path.Typed (p : Path) : Prop :=
  0 < p.type ∧ p.type < 6

instance (p : Path) : Decidable p.Typed :=
  inferInstanceAs (Decidable (_ ∧ _))

/-- `OSPF6_PATH_TYPE_EXTERNAL2`. -/
def pathTypeExternal2 : UInt8 := 4

/-- The difference of two unsigned numbers, as an `int`. -/
def intDiff (a b : UInt32) : Int :=
  (a - b).toBitVec.toInt

/-- `ospf6_route_cmp` of two routes with one prefix. -/
def routeCmp (ra rb : Route) : Except Abort Int :=
  if ra.path.Typed ∧ rb.path.Typed then
    if ra.type ≠ rb.type then .ok (ra.type.toNat - rb.type.toNat)
    else if ra.path.type ≠ rb.path.type then .ok (ra.path.type.toNat - rb.path.type.toNat)
    else if ra.path.type = pathTypeExternal2 then .ok (intDiff ra.path.costE2 rb.path.costE2)
    else .ok (intDiff ra.path.cost rb.path.cost)
  else .error .routeCmp

/-- A `struct ospf6_route_table` and the routes there are: for each what it says, its flags and links, its reference
counter, its node, whether it belongs to the table, and whether it has been allocated and not freed. -/
structure Rtable where
  route : Addr → Route
  flag : Addr → Flags
  next : Addr → Option Addr
  prev : Addr → Option Addr
  lock : Addr → Nat
  rnode : Addr → Option (List Bool)
  inTable : Addr → Bool
  live : Addr → Bool
  table : RouteTable Addr
  count : Nat

/-- A route that is filled in and not yet in a table, at an address that is free. -/
def routeCreate (s : Rtable) (a : Addr) (r : Route) (f : Flags) : Rtable :=
  { s with
    route := Function.update s.route a r
    flag := Function.update s.flag a f
    next := Function.update s.next a none
    prev := Function.update s.prev a none
    lock := Function.update s.lock a 0
    rnode := Function.update s.rnode a none
    inTable := Function.update s.inTable a false
    live := Function.update s.live a true }

/-- `ospf6_route_delete`. -/
def routeDelete (s : Rtable) (a : Addr) : Rtable :=
  { s with live := Function.update s.live a false }

def Rtable.incLock (s : Rtable) (a : Addr) : Rtable :=
  { s with lock := Function.update s.lock a (s.lock a + 1) }

/-- The route is held by one less, and leaves the table and is freed if it was the last one. -/
def Rtable.decLock (s : Rtable) (a : Addr) : Rtable :=
  { s with
    lock := Function.update s.lock a (s.lock a - 1)
    inTable := if s.lock a - 1 = 0 then Function.update s.inTable a false else s.inTable
    live := if s.lock a - 1 = 0 then Function.update s.live a false else s.live }

/-- `ospf6_route_lock`. -/
def routeLock (s : Rtable) (a : Addr) : Except Abort Rtable :=
  if s.live a then .ok (s.incLock a) else .error .assertion

/-- `ospf6_route_unlock`. -/
def routeUnlock (s : Rtable) (a : Addr) : Except Abort Rtable :=
  if s.live a ∧ 0 < s.lock a then .ok (s.decLock a) else .error .assertion

/-- A pointer to a route, locked if it is not null. -/
def routeLock? (s : Rtable) : Option Addr → Except Abort Rtable
  | none => .ok s
  | some a => routeLock s a

/-- `if (o) o->next = v`. -/
def setNext (s : Rtable) (o v : Option Addr) : Except Abort Rtable :=
  if ∀ a ∈ o, s.live a then .ok { s with next := updateAt s.next o v } else .error .assertion

/-- `if (o) o->prev = v`. -/
def setPrev (s : Rtable) (o v : Option Addr) : Except Abort Rtable :=
  if ∀ a ∈ o, s.live a then .ok { s with prev := updateAt s.prev o v } else .error .assertion

/-- The first route on a node that a loop has found; the node is unlocked. -/
def takeInfo (s : Rtable) : RouteTable Addr × Option (List Bool) → Except Abort (Rtable × Option Addr)
  | (t, none) => .ok ({ s with table := t }, none)
  | (t, some b) => do
    let t' ← need (routeUnlockNode t b)
    pure ({ s with table := t' }, t.info b)

/-- `ospf6_route_head`. -/
def routeHead (s : Rtable) : Except Abort (Rtable × Option Addr) := do
  let (t, b) := routeTop s.table
  let found ← need (skipToInfo t b)
  let (s, a) ← takeInfo s found
  if ∀ r ∈ a, s.live r ∧ s.prev r = none ∧ s.inTable r then do
    let s ← routeLock? s a
    pure (s, a)
  else .error .assertion

/-- `ospf6_route_next`. -/
def routeNext (s : Rtable) (a : Addr) : Except Abort (Rtable × Option Addr) := do
  let next := s.next a
  let s ← routeUnlock s a
  let s ← routeLock? s next
  pure (s, next)

/-- The first loop of `route_table_assert`: it counts the links that are wrong. -/
def linkErrors : Nat → Rtable → Option Addr → Option Addr → Except Abort (Rtable × Nat)
  | _, s, _, none => .ok (s, 0)
  | 0, _, _, some _ => .error .assertion
  | n + 1, s, prev, some r => do
    let wrong := if s.prev r ≠ prev then 1 else 0
    let (s, next) ← routeNext s r
    let wrong' := if s.next r ≠ next then 1 else 0
    let (s, m) ← linkErrors n s (some r) next
    pure (s, wrong + wrong' + m)

/-- The second loop of `route_table_assert`. -/
def countRoutes : Nat → Rtable → Option Addr → Except Abort (Rtable × Nat)
  | _, s, none => .ok (s, 0)
  | 0, _, some _ => .error .assertion
  | n + 1, s, some r => do
    let (s, next) ← routeNext s r
    let (s, m) ← countRoutes n s next
    pure (s, m + 1)

/-- `route_table_assert`. The loops are cut off behind as many routes as the table counts. -/
def routeTableAssert (s : Rtable) : Except Abort Rtable := do
  let (s, r) ← routeHead s
  let (s, linkError) ← linkErrors s.count s none r
  let (s, r) ← routeHead s
  let (s, num) ← countRoutes s.count s r
  if linkError = 0 ∧ num = s.count then pure s else .error .assertion

/-- What the loop in `ospf6_route_add` finds: the route that is replaced, or the neighbours of the new one. -/
inductive Place where
  | old (o : Addr)
  | gap (prev next : Option Addr)

/-- The loop in `ospf6_route_add` that looks for the place of a route, at `current`, with the `prev` found so far. -/
def findPlace (s : Rtable) (a : Addr) : Nat → Option Addr → Option Addr → Except Abort Place
  | _, prev, none => .ok (.gap prev none)
  | 0, _, some _ => .error .assertion
  | n + 1, prev, some c =>
    if ¬ s.live c then .error .assertion
    else if ¬ isSame (s.route c) (s.route a) then .ok (.gap prev (some c))
    else if (s.route c).type ≠ (s.route a).type then findPlace s a n (some c) (s.next c)
    else if isSameOrigin (s.route c) (s.route a) then .ok (.old c)
    else do
      let d ← routeCmp (s.route c) (s.route a)
      if 0 < d then .ok (.gap prev (some c)) else findPlace s a n (some c) (s.next c)

def setFlag (s : Rtable) (a : Addr) (f : Flags → Flags) : Rtable :=
  { s with flag := Function.update s.flag a (f (s.flag a)) }

/-- The loop to the last route of a group. -/
def lastOfGroup (s : Rtable) : Nat → Addr → Except Abort Addr
  | 0, _ => .error .assertion
  | n + 1, a =>
    match s.next a with
    | none => .ok a
    | some c =>
      if ¬ s.live c then .error .assertion
      else if isSame (s.route a) (s.route c) then lastOfGroup s n c else .ok a

/-- The table with the node of a route. -/
def withNode (s : Rtable) (a : Addr) : Rtable :=
  { s with
    table := routeNodeGet s.table (s.route a).dest
    rnode := Function.update s.rnode a (some (s.route a).dest) }

def Rtable.join (s : Rtable) (a : Addr) : Rtable :=
  { s with inTable := Function.update s.inTable a true }

/-- `route->table = table`, of a route that belongs to none. -/
def joinTable (s : Rtable) (a : Addr) : Except Abort Rtable :=
  if s.inTable a then .error .assertion else .ok (s.join a)

/-- A route comes first in its group. -/
def setBest (s : Rtable) (b : List Bool) (a : Addr) : Rtable :=
  setFlag { s with table := s.table.setInfo b (some a) } a fun f => { f with best := true }

/-- A route in front of the first one of its group comes first itself: `node->info == next`. -/
def takeFirst (s : Rtable) (b : List Bool) (a : Addr) : Option Addr → Except Abort Rtable
  | none => if s.table.info b = none then .error .assertion else .ok s
  | some c =>
    if s.table.info b = some c then
      if s.rnode c = some b then .ok (setBest (setFlag s c fun f => { f with best := false }) b a)
      else .error .assertion
    else .ok s

/-- The last route of the group that begins with a route, if there is one. -/
def lastOf? (s : Rtable) : Option Addr → Except Abort (Option Addr)
  | none => .ok none
  | some c => (lastOfGroup s (s.count + 1) c).map some

/-- A route put between two others. -/
def link (s : Rtable) (before : Option Addr) (a : Addr) (behind : Option Addr) : Except Abort Rtable := do
  let s ← setNext s before (some a)
  let s ← setPrev s (some a) before
  let s ← setPrev s behind (some a)
  setNext s (some a) behind

/-- `ospf6_route_add`, without the hook. The result is the route in the table. -/
def routeAdd (s : Rtable) (a : Addr) : Except Abort (Rtable × Addr) :=
  if ¬ (s.live a ∧ s.rnode a = none ∧ s.lock a = 0 ∧ s.next a = none ∧ s.prev a = none) then .error .assertion
  else do
    let b := (s.route a).dest
    let s := withNode s a
    let place ← findPlace s a s.count none (s.table.info b)
    match place with
    | .old o =>
      if isIdentical (s.route o) (s.route a) then do
        let s := setFlag (routeDelete s a) o fun f => { f with add := true }
        let s ← routeTableAssert s
        pure (s, o)
      else do
        let s := if s.table.info b = some o then setBest s b a else s
        let s ← link s (s.prev o) a (s.next o)
        let s ← joinTable s a
        let s ← routeUnlock s o
        let s ← routeLock s a
        let s := setFlag s a fun f => { f with change := true }
        let s ← routeTableAssert s
        pure (s, a)
    | .gap prev next =>
      if prev ≠ none ∨ next ≠ none then do
        let before := if prev = none then next.bind s.prev else prev
        let behind := if next = none then prev.bind s.next else next
        let s ← link s before a behind
        let s ← takeFirst s b a behind
        let s ← joinTable s a
        let s ← routeLock s a
        let s ← routeTableAssert { s with count := s.count + 1 }
        pure (setFlag s a fun f => { f with add := true }, a)
      else if s.table.info b ≠ none then .error .assertion
      else do
        let s ← routeLock (setBest s b a) a
        let s ← joinTable s a
        let found ← need (nextInfo s.table.top.nodes.length (routeLockNode s.table b) b)
        let (s, next) ← takeInfo s found
        let s ← setNext s (some a) next
        let s ← setPrev s next (some a)
        let found ← need (prevInfo s.table.top.nodes.length (routeLockNode s.table b) b)
        let (s, first) ← takeInfo s found
        let prev ← lastOf? s first
        let s ← setPrev s (some a) prev
        let s ← setNext s prev (some a)
        let s ← routeTableAssert { s with count := s.count + 1 }
        pure (setFlag s a fun f => { f with add := true }, a)

/-- The loop in `ospf6_route_remove` that makes sure that a route is in its group. -/
def findRoute (s : Rtable) (a : Addr) : Nat → Option Addr → Except Abort Unit
  | _, none => .error .assertion
  | 0, some _ => .error .assertion
  | n + 1, some c =>
    if s.live c ∧ isSame (s.route c) (s.route a) then
      if c = a then .ok () else findRoute s a n (s.next c)
    else .error .assertion

/-- If the first route of a group goes, the next one comes first, or nobody. -/
def dropFirst (s : Rtable) (b : List Bool) (a : Addr) : Rtable :=
  if s.table.info b = some a then
    match s.next a with
    | none => { s with table := s.table.setInfo b none }
    | some c => if isSame (s.route c) (s.route a) then setBest s b c else { s with table := s.table.setInfo b none }
  else s

/-- `ospf6_route_remove`, without the hook. -/
def routeRemove (s : Rtable) (a : Addr) : Except Abort Rtable :=
  match routeNodeLookup s.table (s.route a).dest with
  | (_, none) => .error .assertion
  | (t, some b) => do
    let s := { s with table := t }
    findRoute s a s.count (s.table.info b)
    let s ← setNext s (s.prev a) (s.next a)
    let s ← setPrev s (s.next a) (s.prev a)
    let s := dropFirst s b a
    let s ← routeTableAssert { s with count := s.count - 1 }
    routeUnlock (setFlag s a fun f => { f with wasRemoved := true }) a

/-- `ospf6_route_lookup`. -/
def routeLookup (s : Rtable) (b : List Bool) : Rtable × Option Addr :=
  match routeNodeLookup s.table b with
  | (t, none) => ({ s with table := t }, none)
  | (t, some b) => ({ s with table := t }, t.info b)

/-- A loop with `ospf6_route_head` and `ospf6_route_next`, from a route on: `visit` is done at each route, and may
change what else the loop works on. -/
def loopFrom {σ : Type} (visit : Rtable × σ → Addr → Except Abort (Rtable × σ)) :
    Nat → Rtable × σ → Option Addr → Except Abort (Rtable × σ)
  | _, x, none => .ok x
  | 0, _, some _ => .error .assertion
  | n + 1, x, some a => do
    let (s, e) ← visit x a
    let (s, c) ← routeNext s a
    loopFrom visit n (s, e) c

/-- The loop over a table. It is cut off behind as many routes as the table counts. -/
def forEach {σ : Type} (visit : Rtable × σ → Addr → Except Abort (Rtable × σ)) (x : Rtable × σ) :
    Except Abort (Rtable × σ) := do
  let (s, a) ← routeHead x.1
  loopFrom visit x.1.count (s, x.2) a

/-- A loop that removes the routes it does not want to keep. -/
def sweep (drop : Addr → Bool) (s : Rtable) : Except Abort Rtable :=
  (forEach (fun x a => if drop a then (routeRemove x.1 a).map (·, ()) else .ok x) (s, ())).map Prod.fst

/-- `ospf6_route_remove_all`. -/
def routeRemoveAll (s : Rtable) : Except Abort Rtable :=
  sweep (fun _ => true) s

/-! ### The invariant -/

/-- The routes of the groups, one after another. -/
def chain (gs : List (List Bool × List Addr)) : List Addr :=
  gs.flatMap Prod.snd

/-- The tree and the list of a table say the same: the groups, each with its prefix, in the order of the tree. -/
structure Shape (s : Rtable) (gs : List (List Bool × List Addr)) : Prop where
  kept : Kept s.table
  stored : stored s.table = gs.map Prod.fst
  info : ∀ g ∈ gs, s.table.info g.1 = g.2.head?
  nonempty : ∀ g ∈ gs, g.2 ≠ []
  dest : ∀ g ∈ gs, ∀ a ∈ g.2, (s.route a).dest = g.1
  linked : Linked s.next s.prev (chain gs)
  nodup : (chain gs).Nodup
  count : s.count = (chain gs).length
  live : ∀ a ∈ chain gs, s.live a = true
  inTable : ∀ a ∈ chain gs, s.inTable a = true
  rnode : ∀ a ∈ chain gs, s.rnode a = some (s.route a).dest
  lock_pos : ∀ a ∈ chain gs, 0 < s.lock a

@[simp]
theorem chain_nil : chain [] = [] := rfl

@[simp]
theorem chain_cons (g : List Bool × List Addr) (gs : List (List Bool × List Addr)) :
    chain (g :: gs) = g.2 ++ chain gs := by
  simp [chain]

@[simp]
theorem chain_append (gs hs : List (List Bool × List Addr)) : chain (gs ++ hs) = chain gs ++ chain hs := by
  simp [chain]

theorem mem_chain {gs : List (List Bool × List Addr)} {a : Addr} : a ∈ chain gs ↔ ∃ g ∈ gs, a ∈ g.2 := by
  simp [chain, List.mem_flatMap]

section Shape

variable {s : Rtable} {gs : List (List Bool × List Addr)} {a : Addr}

/-- The first route is the first one of the first group. -/
theorem Shape.head?_chain (h : Shape s gs) : (gs.head?.bind fun g => g.2.head?) = (chain gs).head? := by
  cases gs with
  | nil => rfl
  | cons g gs =>
      obtain ⟨a, l, hg⟩ := List.exists_cons_of_ne_nil (h.nonempty g (by simp))
      simp [hg]

/-- The nodes of the groups are those with something on them. -/
theorem Shape.mem_nodes (h : Shape s gs) {g : List Bool × List Addr} (hg : g ∈ gs) : g.1 ∈ s.table.top.nodes := by
  refine h.kept.mem_of_info ?_
  rw [h.info g hg]
  simpa using h.nonempty g hg

/-- A pointer that may be null, locked if it is not. -/
def Rtable.lock? (s : Rtable) : Option Addr → Rtable
  | none => s
  | some a => s.incLock a

@[simp]
theorem lock?_none : s.lock? none = s := rfl

@[simp]
theorem lock?_some : s.lock? (some a) = s.incLock a := rfl

theorem lock?_next (o : Option Addr) : (s.lock? o).next = s.next := by
  cases o <;> rfl

theorem decLock_incLock (h : 0 < s.lock a) : (s.incLock a).decLock a = s := by
  have hne : s.lock a ≠ 0 := by omega
  simp [Rtable.incLock, Rtable.decLock, hne]

theorem routeLock?_eq {o : Option Addr} (ho : ∀ a ∈ o, s.live a = true) : routeLock? s o = .ok (s.lock? o) := by
  cases o with
  | none => rfl
  | some a => simp [routeLock?, routeLock, ho a rfl]

/-- What a loop finds on a node, with the node locked as before. -/
theorem takeInfo_eq (hkept : Kept s.table) {o : Option (List Bool)} (ho : ∀ b ∈ o, b ∈ s.table.top.nodes) :
    takeInfo s (s.table.lockNode? o, o) = .ok (s, o.bind s.table.info) := by
  cases o with
  | none => rfl
  | some b => simp [takeInfo, need, hkept.unlock_lock (ho b rfl)]

theorem Shape.routeHead (h : Shape s gs) : routeHead s = .ok (s.lock? (chain gs).head?, (chain gs).head?) := by
  have hroot : s.table.top.root? = s.table.top.nodes.head? := (Radix.head?_nodes _).symm
  have hskip : skipToInfo (s.table.lockNode? s.table.top.root?) s.table.top.root? =
      some (s.table.lockNode? (gs.head?.map Prod.fst), gs.head?.map Prod.fst) := by
    have hst : (Table.stored s.table).head? = gs.head?.map Prod.fst := by rw [h.stored, List.head?_map]
    rw [← hst, Table.stored, List.head?_filter]
    cases hn : s.table.top.nodes with
    | nil => simp [hroot, hn, skipToInfo]
    | cons b ys =>
        rw [hroot, hn]
        exact h.kept.skipToInfo (show s.table.top.nodes = [] ++ b :: ys from hn)
  have htake : takeInfo s (s.table.lockNode? (gs.head?.map Prod.fst), gs.head?.map Prod.fst) =
      .ok (s, (chain gs).head?) := by
    have hnodes : ∀ b ∈ gs.head?.map Prod.fst, b ∈ s.table.top.nodes := by
      intro b hb
      obtain ⟨g, hg, rfl⟩ := Option.map_eq_some_iff.mp hb
      exact h.mem_nodes (List.mem_of_mem_head? hg)
    rw [takeInfo_eq h.kept hnodes, ← h.head?_chain]
    cases hg : gs.head? with
    | none => rfl
    | some g => simp [h.info g (List.mem_of_mem_head? hg)]
  have hhead : ∀ a ∈ (chain gs).head?, a ∈ chain gs := fun a ha => List.mem_of_mem_head? ha
  have hok : ∀ r ∈ (chain gs).head?, s.live r = true ∧ s.prev r = none ∧ s.inTable r = true := by
    intro r hr
    refine ⟨h.live r (hhead r hr), ?_, h.inTable r (hhead r hr)⟩
    have hlinked := h.linked
    rw [List.eq_cons_of_mem_head? hr] at hlinked
    exact hlinked.1
  simp only [Routes.routeHead, routeTop, hskip, need]
  simp only [bind, Except.bind, htake, pure, Except.pure]
  rw [if_pos hok, routeLock?_eq fun a ha => h.live a (hhead a ha)]

theorem Shape.routeNext (h : Shape s gs) {as bs : List Addr} (hc : chain gs = as ++ a :: bs) :
    routeNext (s.incLock a) a = .ok (s.lock? bs.head?, bs.head?) := by
  have hnext : s.next a = bs.head? := by
    have hlinked := h.linked
    rw [hc] at hlinked
    exact hlinked.neighbours.2
  have ha : a ∈ chain gs := by simp [hc]
  have hbs : ∀ c ∈ bs.head?, s.live c = true := fun c hc' =>
    h.live c (by rw [hc]; simp [List.mem_of_mem_head? hc'])
  have hun : routeUnlock (s.incLock a) a = .ok s := by
    have hcond : (s.incLock a).live a = true ∧ 0 < (s.incLock a).lock a :=
      ⟨h.live a ha, by simp [Rtable.incLock]⟩
    rw [routeUnlock, if_pos hcond, decLock_incLock (h.lock_pos a ha)]
  have hnext' : (s.incLock a).next a = bs.head? := hnext
  simp only [Routes.routeNext, bind, Except.bind, hun, hnext', routeLock?_eq hbs, pure, Except.pure]

theorem Shape.linkErrors (h : Shape s gs) {l m : List Addr} {n : Nat} (hc : chain gs = l ++ m)
    (hn : m.length ≤ n) :
    linkErrors n (s.lock? m.head?) l.getLast? m.head? = .ok (s, 0) := by
  induction m generalizing l n with
  | nil => simp [Routes.linkErrors]
  | cons a m ih =>
      obtain ⟨n, rfl⟩ : ∃ k, n = k + 1 := ⟨n - 1, by simp at hn; omega⟩
      have hlinked := h.linked
      rw [hc] at hlinked
      obtain ⟨hprev, hnext⟩ := hlinked.neighbours
      have hprev' : (s.incLock a).prev a = l.getLast? := hprev
      have hnext' : (s.lock? m.head?).next a = m.head? := by
        rw [lock?_next]
        exact hnext
      have hih := ih (l := l ++ [a]) (n := n) (by simp [hc]) (by simpa using hn)
      simp only [List.getLast?_concat] at hih
      simp only [Routes.linkErrors, List.head?_cons, lock?_some, bind, Except.bind, h.routeNext hc, hprev', hnext', hih,
        pure, Except.pure, ne_eq, not_true_eq_false, if_false, Nat.add_zero]

theorem Shape.countRoutes (h : Shape s gs) {l m : List Addr} {n : Nat} (hc : chain gs = l ++ m)
    (hn : m.length ≤ n) : countRoutes n (s.lock? m.head?) m.head? = .ok (s, m.length) := by
  induction m generalizing l n with
  | nil => simp [Routes.countRoutes]
  | cons a m ih =>
      obtain ⟨n, rfl⟩ : ∃ k, n = k + 1 := ⟨n - 1, by simp at hn; omega⟩
      have hih := ih (l := l ++ [a]) (n := n) (by simp [hc]) (by simpa using hn)
      simp only [Routes.countRoutes, List.head?_cons, lock?_some, bind, Except.bind, h.routeNext hc, hih, pure,
        Except.pure, List.length_cons]

/-- The assertions of `route_table_assert` hold, and it leaves the table as it is. -/
theorem Shape.routeTableAssert (h : Shape s gs) : routeTableAssert s = .ok s := by
  have hcount : (s.lock? (chain gs).head?).count = (chain gs).length := by
    rw [← h.count]
    cases (chain gs).head? <;> rfl
  have herrors := h.linkErrors (l := []) (m := chain gs) rfl le_rfl
  have hnum := h.countRoutes (l := []) (m := chain gs) rfl le_rfl
  simp only [List.getLast?_nil] at herrors
  simp only [Routes.routeTableAssert, h.routeHead, bind, Except.bind, hcount, herrors, hnum]
  rw [if_pos ⟨trivial, h.count.symm⟩]
  rfl

end Shape

/-- The group of a prefix, empty if there is none. -/
def groupAt (gs : List (List Bool × List Addr)) (p : List Bool) : List Addr :=
  ((gs.find? fun x => x.1 == p).map Prod.snd).getD []

/-- The part of a group that stays before a route, the route that it replaces, and the part that stays behind it. -/
def groupSearch (route : Addr → Route) (r : Route) :
    List Addr → Except Abort (List Addr × Option Addr × List Addr)
  | [] => .ok ([], none, [])
  | c :: g =>
    if (route c).type ≠ r.type then do
      let (before, old, behind) ← groupSearch route r g
      pure (c :: before, old, behind)
    else if isSameOrigin (route c) r then .ok ([], some c, g)
    else do
      let d ← routeCmp (route c) r
      if 0 < d then pure ([], none, c :: g)
      else do
        let (before, old, behind) ← groupSearch route r g
        pure (c :: before, old, behind)

theorem routeCmp_error {ra rb : Route} {e : Abort} (h : routeCmp ra rb = .error e) :
    e = .routeCmp ∧ ¬ (ra.path.Typed ∧ rb.path.Typed) := by
  have htyped : ¬ (ra.path.Typed ∧ rb.path.Typed) := by
    intro htyped
    rw [routeCmp, if_pos htyped] at h
    split_ifs at h
  rw [routeCmp, if_neg htyped] at h
  exact ⟨(Except.error.inj h).symm, htyped⟩

/-- What a search does at a route: it fails, finds the route to replace, stops before it, or passes it. -/
theorem groupSearch_cons (route : Addr → Route) (r : Route) (c : Addr) (g : List Addr) :
    (groupSearch route r (c :: g) = .error .routeCmp ∧ isSameOrigin (route c) r = false ∧ (route c).type = r.type ∧
      routeCmp (route c) r = .error .routeCmp) ∨
    (groupSearch route r (c :: g) = .ok ([], some c, g) ∧ isSameOrigin (route c) r = true ∧
      (route c).type = r.type) ∨
    (groupSearch route r (c :: g) = .ok ([], none, c :: g) ∧ isSameOrigin (route c) r = false ∧
      (route c).type = r.type ∧ ∃ d, routeCmp (route c) r = .ok d ∧ 0 < d) ∨
    (groupSearch route r (c :: g) = (groupSearch route r g).map (fun x => (c :: x.1, x.2.1, x.2.2)) ∧
      ((route c).type ≠ r.type ∨ isSameOrigin (route c) r = false ∧ (route c).type = r.type ∧
        ∃ d, routeCmp (route c) r = .ok d ∧ ¬ 0 < d)) := by
  have hmap : (do
      let (before, old, behind) ← groupSearch route r g
      pure (c :: before, old, behind)) =
      (groupSearch route r g).map fun x => (c :: x.1, x.2.1, x.2.2) := by
    cases groupSearch route r g <;> rfl
  by_cases htype : (route c).type = r.type
  · by_cases horigin : isSameOrigin (route c) r = true
    · exact .inr (.inl ⟨by simp [groupSearch, htype, horigin], horigin, htype⟩)
    · cases hd : routeCmp (route c) r with
      | error e =>
          obtain rfl := (routeCmp_error hd).1
          refine .inl ⟨?_, by simpa using horigin, htype, rfl⟩
          simp [groupSearch, htype, horigin, hd, bind, Except.bind]
      | ok d =>
          by_cases hpos : 0 < d
          · refine .inr (.inr (.inl ⟨?_, by simpa using horigin, htype, d, rfl, hpos⟩))
            simp [groupSearch, htype, horigin, hd, bind, Except.bind, hpos, pure, Except.pure]
          · refine .inr (.inr (.inr ⟨?_, .inr ⟨by simpa using horigin, htype, d, rfl, hpos⟩⟩))
            rw [← hmap]
            simp [groupSearch, htype, horigin, hd, bind, Except.bind, hpos]
  · refine .inr (.inr (.inr ⟨?_, .inl htype⟩))
    rw [← hmap]
    simp [groupSearch, htype]

/-- The parts make up the group. -/
theorem groupSearch_eq {route : Addr → Route} {r : Route} {g before behind : List Addr} {old : Option Addr}
    (h : groupSearch route r g = .ok (before, old, behind)) : g = before ++ (old.toList ++ behind) := by
  induction g generalizing before old behind with
  | nil =>
      simp only [groupSearch, Except.ok.injEq, Prod.mk.injEq] at h
      obtain ⟨rfl, rfl, rfl⟩ := h
      rfl
  | cons c g ih =>
      obtain ⟨hc, -⟩ | ⟨hc, -⟩ | ⟨hc, -⟩ | ⟨hc, -⟩ := groupSearch_cons route r c g
      · simp [hc] at h
      · simp only [hc, Except.ok.injEq, Prod.mk.injEq] at h
        obtain ⟨rfl, rfl, rfl⟩ := h
        rfl
      · simp only [hc, Except.ok.injEq, Prod.mk.injEq] at h
        obtain ⟨rfl, rfl, rfl⟩ := h
        rfl
      · rw [hc] at h
        cases hg : groupSearch route r g with
        | error e => simp [hg, Except.map] at h
        | ok x =>
            simp only [hg, Except.map, Except.ok.injEq, Prod.mk.injEq] at h
            obtain ⟨rfl, rfl, rfl⟩ := h
            simpa using ih (by simp [hg])

/-- A search fails at a path without a type only. -/
theorem groupSearch_error {route : Addr → Route} {r : Route} {g : List Addr} {e : Abort}
    (h : groupSearch route r g = .error e) : e = .routeCmp ∧ ∃ c ∈ g, ¬ ((route c).path.Typed ∧ r.path.Typed) := by
  induction g with
  | nil => simp [groupSearch] at h
  | cons c g ih =>
      obtain ⟨hc, -, -, hd⟩ | ⟨hc, -⟩ | ⟨hc, -⟩ | ⟨hc, -⟩ :=
        groupSearch_cons route r c g
      · rw [hc, Except.error.injEq] at h
        exact ⟨h.symm, c, by simp, (routeCmp_error hd).2⟩
      · simp [hc] at h
      · simp [hc] at h
      · rw [hc] at h
        cases hg : groupSearch route r g with
        | error e' =>
            simp only [hg, Except.map, Except.error.injEq] at h
            subst h
            obtain ⟨he, c', hc', htyped⟩ := ih hg
            exact ⟨he, c', by simp [hc'], htyped⟩
        | ok x => simp [hg, Except.map] at h

/-- What the search in a group means for the walk over the list. -/
def placeOf (pv : Option Addr) (rest : List Addr) : List Addr × Option Addr × List Addr → Place
  | (_, some o, _) => .old o
  | (before, none, behind) => .gap (before.getLast?.or pv) (behind ++ rest).head?

theorem placeOf_cons (pv : Option Addr) (rest : List Addr) (c : Addr) (x : List Addr × Option Addr × List Addr) :
    placeOf pv rest (c :: x.1, x.2) = placeOf (some c) rest x := by
  obtain ⟨before, old, behind⟩ := x
  cases old with
  | some o => rfl
  | none =>
      cases before with
      | nil => simp [placeOf]
      | cons d before => simp [placeOf, List.getLast?_eq_some_getLast]

/-- The walk along the list finds the place in the group. -/
theorem findPlace_eq {s : Rtable} {a : Addr} {l g rest : List Addr} {n : Nat} {u : Option Addr}
    (hlinked : Linked s.next s.prev (l ++ (g ++ rest))) (hlive : ∀ c ∈ g ++ rest, s.live c = true)
    (hg : ∀ c ∈ g, (s.route c).dest = (s.route a).dest)
    (hrest : ∀ c ∈ rest.head?, (s.route c).dest ≠ (s.route a).dest) (hn : (g ++ rest).length ≤ n) :
    findPlace s a n u (g ++ rest).head? = (groupSearch s.route (s.route a) g).map (placeOf u rest) := by
  induction g generalizing l n u with
  | nil =>
      cases rest with
      | nil => simp [findPlace, groupSearch, Except.map, placeOf]
      | cons c rest =>
          obtain ⟨n, rfl⟩ : ∃ k, n = k + 1 := ⟨n - 1, by simp at hn; omega⟩
          have hne : isSame (s.route c) (s.route a) = false := by simpa [isSame] using hrest c (by simp)
          simp [findPlace, hlive c (by simp), hne, groupSearch, Except.map, placeOf]
  | cons c g ih =>
      obtain ⟨n, rfl⟩ : ∃ k, n = k + 1 := ⟨n - 1, by simp at hn; omega⟩
      have hsame : isSame (s.route c) (s.route a) = true := by simpa [isSame] using hg c (by simp)
      have hnext : s.next c = (g ++ rest).head? := by
        have hl : Linked s.next s.prev (l ++ c :: (g ++ rest)) := by simpa using hlinked
        exact hl.neighbours.2
      have hih := ih (l := l ++ [c]) (n := n) (u := some c) (by simpa using hlinked)
        (fun d hd => hlive d (by simp only [List.cons_append, List.mem_cons]; exact .inr hd))
        (fun d hd => hg d (by simp [hd])) (by simpa using hn)
      have hmap : ((groupSearch s.route (s.route a) g).map fun x => (c :: x.1, x.2.1, x.2.2)).map (placeOf u rest) =
          (groupSearch s.route (s.route a) g).map (placeOf (some c) rest) := by
        cases groupSearch s.route (s.route a) g with
        | error e => rfl
        | ok x => simp [Except.map, placeOf_cons]
      have hlc := hlive c (by simp)
      rw [List.cons_append, List.head?_cons]
      obtain ⟨hc, horigin, htype, hd⟩ | ⟨hc, horigin, htype⟩ | ⟨hc, horigin, htype, d, hd, hpos⟩ | ⟨hc, hpass⟩ :=
        groupSearch_cons s.route (s.route a) c g
      · simp [findPlace, hlc, hsame, htype, horigin, hc, hd, Except.map, bind, Except.bind]
      · simp [findPlace, hlc, hsame, htype, horigin, hc, Except.map, placeOf]
      · simp [findPlace, hlc, hsame, htype, horigin, hc, hd, hpos, Except.map, placeOf, bind, Except.bind]
      · rw [hc, hmap, ← hih, ← hnext]
        obtain htype | ⟨horigin, htype, d, hd, hpos⟩ := hpass
        · simp [findPlace, hlc, hsame, htype]
        · simp [findPlace, hlc, hsame, htype, horigin, hd, hpos, bind, Except.bind]

/-- A group of a prefix, none if there are no routes. -/
def group (b : List Bool) (g : List Addr) : List (List Bool × List Addr) :=
  if g = [] then [] else [(b, g)]

@[simp]
theorem chain_group (b : List Bool) (g : List Addr) : chain (group b g) = g := by
  by_cases hg : g = [] <;> simp [group, hg]

theorem mem_group {b : List Bool} {g : List Addr} {x : List Bool × List Addr} :
    x ∈ group b g ↔ g ≠ [] ∧ x = (b, g) := by
  by_cases hg : g = [] <;> simp [group, hg]

section GroupAt

variable {A B M M' : List (List Bool × List Addr)} {b p : List Bool} {g : List Addr}

theorem groupAt_of_ne (hM : ∀ x ∈ M, x.1 = b) (hM' : ∀ x ∈ M', x.1 = b) (hp : p ≠ b) :
    groupAt (A ++ (M' ++ B)) p = groupAt (A ++ (M ++ B)) p := by
  have hnone : ∀ {N : List (List Bool × List Addr)}, (∀ x ∈ N, x.1 = b) → N.find? (fun x => x.1 == p) = none := by
    intro N hN
    rw [List.find?_eq_none]
    intro x hx hxp
    exact hp ((beq_iff_eq.mp hxp).symm.trans (hN x hx))
  simp only [groupAt, List.find?_append, hnone hM, hnone hM']

theorem groupAt_self (hA : ∀ x ∈ A, x.1 ≠ b) (hB : ∀ x ∈ B, x.1 ≠ b) : groupAt (A ++ (group b g ++ B)) b = g := by
  have hnone : ∀ {N : List (List Bool × List Addr)}, (∀ x ∈ N, x.1 ≠ b) → N.find? (fun x => x.1 == b) = none := by
    intro N hN
    rw [List.find?_eq_none]
    intro x hx hxp
    exact hN x hx (beq_iff_eq.mp hxp)
  by_cases hg : g = []
  · simp [groupAt, List.find?_append, hnone hA, hnone hB, group, hg]
  · simp [groupAt, List.find?_append, hnone hA, group, hg]

theorem ne_of_pairwise (hpw : (A.map Prod.fst ++ b :: B.map Prod.fst).Pairwise (· < ·)) :
    (∀ x ∈ A, x.1 ≠ b) ∧ ∀ x ∈ B, x.1 ≠ b := by
  obtain ⟨-, hpb, hAb⟩ := List.pairwise_append.mp hpw
  exact ⟨fun x hx => ne_of_lt (hAb x.1 (List.mem_map_of_mem hx) b (by simp)),
    fun x hx => ne_of_gt ((List.pairwise_cons.mp hpb).1 x.1 (List.mem_map_of_mem hx))⟩

end GroupAt

section Change

variable {s s' : Rtable} {A B M : List (List Bool × List Addr)} {b : List Bool} {g g' : List Addr} {a : Addr}

/-- The routes of one prefix are changed, and those of the others left alone. -/
theorem Shape.setGroup (h : Shape s (A ++ (M ++ B))) (hM : ∀ x ∈ M, x.1 = b)
    (hpw : (A.map Prod.fst ++ b :: B.map Prod.fst).Pairwise (· < ·)) (hroute : s'.route = s.route)
    (hkept : Kept s'.table) (hinfo : s'.table.info = Function.update s.table.info b g'.head?)
    (hdest : ∀ c ∈ g', (s.route c).dest = b) (hlinked : Linked s'.next s'.prev (chain A ++ (g' ++ chain B)))
    (hnodup : (chain A ++ (g' ++ chain B)).Nodup) (hcount : s'.count = (chain A ++ (g' ++ chain B)).length)
    (hheld : ∀ c ∈ chain A ++ (g' ++ chain B), s'.live c = true ∧ s'.inTable c = true ∧
      s'.rnode c = some (s'.route c).dest ∧ 0 < s'.lock c) :
    Shape s' (A ++ (group b g' ++ B)) := by
  have hchain : chain (A ++ (group b g' ++ B)) = chain A ++ (g' ++ chain B) := by simp
  obtain ⟨hneA, hneB⟩ := ne_of_pairwise hpw
  have hother : ∀ x ∈ A ++ B, x ∈ A ++ (M ++ B) ∧ x.1 ≠ b := by
    intro x hx
    rw [List.mem_append] at hx
    refine ⟨by simp only [List.mem_append]; tauto, hx.elim (hneA x) (hneB x)⟩
  have hcases : ∀ x ∈ A ++ (group b g' ++ B), x ∈ A ++ B ∨ g' ≠ [] ∧ x = (b, g') := by
    intro x hx
    simp only [List.mem_append, mem_group] at hx ⊢
    tauto
  refine ⟨hkept, ?_, fun x hx => ?_, fun x hx => ?_, fun x hx c hc => ?_, ?_, ?_, ?_, ?_, ?_, ?_, ?_⟩
  · refine hkept.stored_pairwise.eq_of_mem_iff ?_ fun p => ?_
    · by_cases hg : g' = []
      · simp only [group, hg, if_true, List.nil_append, List.map_append]
        exact hpw.sublist (by simp)
      · simpa [group, hg] using hpw
    · rw [hkept.mem_stored, hinfo]
      by_cases hp : p = b
      · subst hp
        have hnA : p ∉ A.map Prod.fst := by
          rintro hm
          obtain ⟨x, hx, hxp⟩ := List.mem_map.mp hm
          exact hneA x hx hxp
        have hnB : p ∉ B.map Prod.fst := by
          rintro hm
          obtain ⟨x, hx, hxp⟩ := List.mem_map.mp hm
          exact hneB x hx hxp
        by_cases hg : g' = []
        · simp only [hg, group, if_true, List.nil_append, List.map_append, List.mem_append, Function.update_self,
            List.head?_nil, ne_eq, not_true_eq_false, hnA, hnB, or_self]
        · simp [hg, group]
      · rw [Function.update_of_ne hp, ← h.kept.mem_stored, h.stored]
        have hpM : p ∉ M.map Prod.fst := by
          intro hm
          obtain ⟨x, hx, rfl⟩ := List.mem_map.mp hm
          exact hp (hM x hx)
        have hpg : p ∉ (group b g').map Prod.fst := by
          intro hm
          obtain ⟨x, hx, rfl⟩ := List.mem_map.mp hm
          exact hp (congrArg Prod.fst (mem_group.mp hx).2)
        simp only [List.map_append, List.mem_append, hpM, hpg, false_or]
  · rw [hinfo]
    obtain hx | ⟨-, rfl⟩ := hcases x hx
    · rw [Function.update_of_ne (hother x hx).2]
      exact h.info x (hother x hx).1
    · simp
  · obtain hx | ⟨hne, rfl⟩ := hcases x hx
    · exact h.nonempty x (hother x hx).1
    · exact hne
  · rw [hroute]
    obtain hx | ⟨-, rfl⟩ := hcases x hx
    · exact h.dest x (hother x hx).1 c hc
    · exact hdest c hc
  · rw [hchain]
    exact hlinked
  · rw [hchain]
    exact hnodup
  · rw [hchain]
    exact hcount
  · rw [hchain]
    exact fun c hc => (hheld c hc).1
  · rw [hchain]
    exact fun c hc => (hheld c hc).2.1
  · rw [hchain]
    exact fun c hc => (hheld c hc).2.2.1
  · rw [hchain]
    exact fun c hc => (hheld c hc).2.2.2

/-- The place of a prefix in the tree and among the groups. -/
theorem Shape.place {gs : List (List Bool × List Addr)} (h : Shape s gs) (b : List Bool) :
    ∃ xs ys A M B, (routeNodeGet s.table b).top.nodes = xs ++ b :: ys ∧ gs = A ++ (M ++ B) ∧
      (xs.filter fun c => (s.table.info c).isSome) = A.map Prod.fst ∧
      (ys.filter fun c => (s.table.info c).isSome) = B.map Prod.fst ∧
      (A.map Prod.fst ++ b :: B.map Prod.fst).Pairwise (· < ·) ∧
      ((M = [] ∧ s.table.info b = none) ∨ ∃ g, M = [(b, g)] ∧ g ≠ [] ∧ s.table.info b = g.head?) := by
  have hinfo := h.kept.routeNodeGet_info (k := b)
  have hkept := h.kept.routeNodeGet b
  obtain ⟨xs, ys, hnodes⟩ := List.append_of_mem (routeNodeGet_mem (t := s.table) (k := b))
  have hsplit := stored_split hnodes
  rw [stored_congr h.kept hkept hinfo, h.stored, hinfo] at hsplit
  obtain ⟨A, rest, rfl, hA, hrest⟩ := List.map_eq_append_iff.mp hsplit
  obtain ⟨M, B, rfl, hM, hB⟩ := List.map_eq_append_iff.mp hrest
  refine ⟨xs, ys, A, M, B, hnodes, rfl, hA.symm, hB.symm, ?_, ?_⟩
  · have hsorted := Radix.nodes_pairwise hkept.ordered
    rw [hnodes] at hsorted
    rw [hA, hB]
    exact hsorted.sublist (List.Sublist.append List.filter_sublist (List.Sublist.cons_cons b List.filter_sublist))
  · cases hb : s.table.info b with
    | none =>
        rw [hb] at hM
        exact .inl ⟨by simpa using hM, rfl⟩
    | some c =>
        rw [hb] at hM
        obtain ⟨x, rfl, hx⟩ : ∃ x, M = [x] ∧ x.1 = b := by
          simpa [List.map_eq_singleton_iff] using hM
        obtain ⟨p, g⟩ := x
        subst hx
        have hmem : (p, g) ∈ A ++ ([(p, g)] ++ B) := by simp
        refine .inr ⟨g, rfl, h.nonempty _ hmem, ?_⟩
        rw [← hb]
        exact h.info _ hmem

end Change

end Harry.Routes
