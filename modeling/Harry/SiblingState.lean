import Mathlib.Algebra.Group.Int.Defs
import Harry.BaseExec
import Harry.BaseBlind
import Harry.RfpMessage

/-! The state of an OSPF6 sibling: the structures of `ospf6_top.h`, `ospf6_area.h`,
`ospf6_interface.h`, `ospf6_neighbor.h` and `ospf6_lsa.h`, its pending threads, and the programs that
read and write them. An LSA is an object on the heap, known by its address; the databases and lists are
lists of addresses, kept in the order of the tree they are in the source. What the clock has a part in,
the age, the birth and the time of installation of the LSAs and the readings themselves, is the hidden
part of the state, and so is where `realloc` puts the buffers. Numbers are in host order. -/

namespace Harry.Sibling

open Harry.Base Harry.Rfp

structure Timeval where
  sec : Int
  usec : Int
  deriving DecidableEq, Inhabited

/-- The address of a `struct ospf6_lsa`. -/
abbrev Addr := Nat

/-- A neighbor is found by its router id among those of an interface. -/
structure NbrRef where
  oi : Nat
  routerId : UInt32
  deriving DecidableEq

inductive NbrList where
  | summaryList | requestList | retransList | dbdescList | lsreqList | lsupdateList | lsackList
  deriving DecidableEq

/-- The places a `struct ospf6_lsdb` stands in. -/
inductive Lsdb where
  | interface (oi : Nat)
  | interfaceSelf (oi : Nat)
  | interfaceLsupdate (oi : Nat)
  | interfaceLsack (oi : Nat)
  | area (oa : Nat)
  | areaSelf (oa : Nat)
  | as
  | neighbor (on : NbrRef) (list : NbrList)
  deriving DecidableEq

/-- What identifies an LSA. -/
structure LsaKey where
  type : UInt16
  id : UInt32
  advRouter : UInt32
  deriving DecidableEq

/-- `struct ospf6_lsa_header` but for the age. -/
structure LsaHeader where
  type : UInt16
  id : UInt32
  advRouter : UInt32
  seqnum : UInt32
  checksum : UInt16
  length : UInt16
  deriving DecidableEq, Inhabited

def LsaHeader.key (h : LsaHeader) : LsaKey := ⟨h.type, h.id, h.advRouter⟩

/-- The part of a `struct ospf6_lsa` that no clock enters. -/
structure LsaInfo where
  header : LsaHeader
  body : List UInt8
  headeronly : Bool
  floodback : Bool
  duplicate : Bool
  impliedack : Bool
  retransCount : Int
  lsdb : Option Lsdb
  hostnum : UInt32
  deriving DecidableEq, Inhabited

structure Lsa extends LsaInfo where
  age : UInt16
  birth : Timeval
  installed : Timeval
  deriving DecidableEq, Inhabited

/-- The hidden part of the state: the LSAs by address, what the monotonic clock will return at the
next reading, at the one after it, and so on, and how far from its first place the obuf of a message is
when it has been given a number of bytes. -/
structure Mem where
  heap : List Lsa
  clock : Nat → Timeval
  moves : Nat → Int
  deriving Inhabited

/-- The clock has been read. -/
def Mem.tick (m : Mem) : Mem := { m with clock := fun n => m.clock (n + 1) }

/-- The LSA at an address is changed. -/
def Mem.update (m : Mem) (a : Addr) (f : Lsa → Lsa) : Mem := { m with heap := m.heap.modify a f }

/-- A new LSA; its address is the number of those before it. -/
def Mem.push (m : Mem) (l : Lsa) : Mem := { m with heap := m.heap ++ [l] }

def Mem.lsa (m : Mem) (a : Addr) : Lsa := m.heap.getD a default

/-- The key of the LSA at an address, where there is one. -/
def Mem.key (m : Mem) (a : Addr) : Option LsaKey :=
  if a < m.heap.length then some (m.lsa a).header.key else none

inductive NeighborState where
  | down | attempt | init | twoway | exstart | exchange | loading | full
  deriving DecidableEq, Inhabited

def NeighborState.code : NeighborState → Nat
  | .down => 1
  | .attempt => 2
  | .init => 3
  | .twoway => 4
  | .exstart => 5
  | .exchange => 6
  | .loading => 7
  | .full => 8

instance : LT NeighborState := ⟨fun s t => s.code < t.code⟩

instance (s t : NeighborState) : Decidable (s < t) := inferInstanceAs (Decidable (s.code < t.code))

inductive InterfaceState where
  | none | down | loopback | waiting | pointtopoint | drother | bdr | dr
  deriving DecidableEq, Inhabited

def InterfaceState.code : InterfaceState → Nat
  | .none => 0
  | .down => 1
  | .loopback => 2
  | .waiting => 3
  | .pointtopoint => 4
  | .drother => 5
  | .bdr => 6
  | .dr => 7

/-- A thread of the scheduler: the function and its argument. `dangling` is one whose neighbor has been
freed. -/
inductive Thread where
  | helloSend (oi : Nat)
  | dbdescSend (on : NbrRef)
  | dbdescSendNewone (on : NbrRef)
  | lsreqSend (on : NbrRef)
  | lsupdateSendNeighbor (on : NbrRef)
  | lsupdateSendInterface (oi : Nat)
  | lsackSendNeighbor (on : NbrRef)
  | lsackSendInterface (oi : Nat)
  | inactivityTimer (on : NbrRef)
  | exchangeDone (on : NbrRef)
  | loadingDone (on : NbrRef)
  | adjOk (on : NbrRef)
  | seqnumberMismatch (on : NbrRef)
  | badLsreq (on : NbrRef)
  | neighborChange (oi : Nat)
  | waitTimer (oi : Nat)
  | routerLsaOriginate (oa : Nat) (hostnum : UInt32)
  | linkLsaOriginate (oi : Nat)
  | intraPrefixLsaOriginateTransit (oi : Nat)
  | spfCalculation (oa : Nat) (hostnum : UInt32)
  | dangling
  deriving DecidableEq

structure Neighbor where
  state : NeighborState
  routerId : UInt32
  ifindex : UInt32
  priority : UInt8
  drouter : UInt32
  bdrouter : UInt32
  prevDrouter : UInt32
  prevBdrouter : UInt32
  options : List UInt8
  dbdescBits : UInt8
  dbdescSeqnum : UInt32
  dbdescLast : List UInt8
  summaryList : List Addr
  requestList : List Addr
  retransList : List Addr
  dbdescList : List Addr
  lsreqList : List Addr
  lsupdateList : List Addr
  lsackList : List Addr
  inactivityTimer : Option Thread
  threadSendDbdesc : Option Thread
  threadSendLsreq : Option Thread
  threadSendLsupdate : Option Thread
  threadSendLsack : Option Thread
  deriving DecidableEq, Inhabited

def Neighbor.list (on : Neighbor) : NbrList → List Addr
  | .summaryList => on.summaryList
  | .requestList => on.requestList
  | .retransList => on.retransList
  | .dbdescList => on.dbdescList
  | .lsreqList => on.lsreqList
  | .lsupdateList => on.lsupdateList
  | .lsackList => on.lsackList

def Neighbor.setList (on : Neighbor) (as : List Addr) : NbrList → Neighbor
  | .summaryList => { on with summaryList := as }
  | .requestList => { on with requestList := as }
  | .retransList => { on with retransList := as }
  | .dbdescList => { on with dbdescList := as }
  | .lsreqList => { on with lsreqList := as }
  | .lsupdateList => { on with lsupdateList := as }
  | .lsackList => { on with lsackList := as }

/-- `struct ospf6_interface` with what it uses of its `struct interface`: whether the link is down, the
index and the MTU. `routeConnected` is the connected prefixes, each as it is laid out in a Link-LSA. -/
structure Interface where
  linkDown : Bool
  ifindex : UInt32
  mtu : UInt32
  area : Nat
  neighborList : List Neighbor
  linklocalAddr : Option (List UInt8)
  transdelay : UInt32
  ctrlClient : Nat
  priority : UInt8
  helloInterval : UInt16
  deadInterval : UInt16
  rxmtInterval : UInt32
  cost : UInt32
  drouter : UInt32
  bdrouter : UInt32
  ifmtu : UInt32
  state : InterfaceState
  lsdb : List Addr
  lsdbSelf : List Addr
  lsupdateList : List Addr
  lsackList : List Addr
  threadSendHello : Option Thread
  threadSendLsupdate : Option Thread
  threadSendLsack : Option Thread
  threadLinkLsa : Option Thread
  threadIntraPrefixLsa : Option Thread
  routeConnected : List (List UInt8)
  deriving DecidableEq, Inhabited

structure Area where
  areaId : UInt32
  enabled : Bool
  stub : Bool
  options : List UInt8
  ifList : List Nat
  lsdb : List Addr
  lsdbSelf : List Addr
  threadSpfCalculation : Option Thread
  threadRouterLsa : Option Thread
  routerLsaSizeLimit : UInt32
  deriving DecidableEq, Inhabited

structure CtrlClient where
  hostnum : UInt32
  currentXid : UInt32
  deriving DecidableEq, Inhabited

/-- What a step gets from outside and both siblings get alike: the value found in the uninitialised
`retrans_added` and returned by the missing return of `ospf6_is_maxage_lsa_drop`, and the egress
transaction id read from the database by `synchronize_current_xid`. -/
structure Outside where
  retransAdded : Int
  maxageLsaDrop : Bool
  egressLeaderXid : UInt32
  deriving DecidableEq, Inhabited

/-- A message handed to a controller. -/
structure Output where
  client : Nat
  msg : Rfpbuf
  deriving DecidableEq

/-- The compared part of the state. The routing tables are of a type of their own; `fault` is set where
an assertion fails or freed memory is used, and nothing is sent after that. -/
structure State (ρ : Type) where
  routerId : UInt32
  areaList : List Area
  interfaces : List Interface
  ctrlClients : List CtrlClient
  lsdb : List Addr
  restartMode : Bool
  restartedFirstEgressNotSent : Bool
  externalCount : Nat
  debugMsg : Bool
  events : List Thread
  timers : List Thread
  routes : ρ
  outside : Outside
  sent : List Output
  fault : Bool

/-- The routing calculation (`ospf6_spf.c`, `ospf6_route.c` and the table work of `ospf6_intra.c`), of
which the exchange of messages uses three things: the requests that an Intra-Area-Prefix-LSA and an SPF
run make to the controllers, each with the client it goes to, and the prefixes that the Link-LSAs of an
interface advertise, as they are written in an LSA. It reads no clock but for the `MaxAge` tests handed to
it. An area is known by its number in the list and by its id. What holds for any such calculation is shown for
any; the calculation of the source is `Calculation.Routing`. -/
class RouteCalc (ρ : Type) where
  intraPrefixLsaAdd (routes : ρ) (oa : Nat) (areaId : UInt32) (lsa : LsaInfo) : Exec (Nat × List UInt8) ρ
  spfCalculation (routes : ρ) (routerId : UInt32) (oa : Nat) (areaId hostnum : UInt32)
    (lsas : List (LsaInfo × Bool)) (links : List (UInt32 × List LsaInfo)) : Exec (Nat × List UInt8) ρ
  transitPrefixes (oi : Interface) (routerId areaId : UInt32) (links : List LsaInfo) : Option (List (List UInt8))

abbrev M (ρ : Type) := Prog (State ρ) Mem

section Access

variable {ρ : Type}

open Prog

def fail : M ρ Unit := modify fun s => { s with fault := true }

/-- `assert`. -/
def assert (b : Bool) : M ρ Unit := if b then pure () else fail

def theInterface (oi : Nat) : M ρ Interface := do
  let s ← observe
  match s.interfaces[oi]? with
  | some i => pure i
  | none => do
      fail
      pure default

def modifyInterface (oi : Nat) (f : Interface → Interface) : M ρ Unit :=
  modify fun s => { s with interfaces := s.interfaces.modify oi f }

def theArea (oa : Nat) : M ρ Area := do
  let s ← observe
  match s.areaList[oa]? with
  | some a => pure a
  | none => do
      fail
      pure default

def modifyArea (oa : Nat) (f : Area → Area) : M ρ Unit :=
  modify fun s => { s with areaList := s.areaList.modify oa f }

/-- `ospf6_neighbor_lookup`. -/
def Interface.neighborLookup (oi : Interface) (routerId : UInt32) : Option Neighbor :=
  oi.neighborList.find? fun on => on.routerId == routerId

/-- The neighbor a pointer stands for; it may have been freed. -/
def theNeighbor (on : NbrRef) : M ρ Neighbor := do
  let s ← observe
  match s.interfaces[on.oi]?.bind (·.neighborLookup on.routerId) with
  | some n => pure n
  | none => do
      fail
      pure default

def modifyNeighbor (on : NbrRef) (f : Neighbor → Neighbor) : M ρ Unit :=
  modifyInterface on.oi fun oi =>
    { oi with neighborList := oi.neighborList.map fun n => if n.routerId == on.routerId then f n else n }

/-- The hostnum of the controller an interface is attached to. -/
def hostnumOf (oi : Interface) : M ρ UInt32 := do
  let s ← observe
  match s.ctrlClients[oi.ctrlClient]? with
  | some c => pure c.hostnum
  | none => do
      fail
      pure 0

def emit (o : Output) : M ρ Unit :=
  modify fun s => if s.fault then s else { s with sent := s.sent ++ [o] }

def Lsdb.get (s : State ρ) : Lsdb → List Addr
  | .interface oi => (s.interfaces.getD oi default).lsdb
  | .interfaceSelf oi => (s.interfaces.getD oi default).lsdbSelf
  | .interfaceLsupdate oi => (s.interfaces.getD oi default).lsupdateList
  | .interfaceLsack oi => (s.interfaces.getD oi default).lsackList
  | .area oa => (s.areaList.getD oa default).lsdb
  | .areaSelf oa => (s.areaList.getD oa default).lsdbSelf
  | .as => s.lsdb
  | .neighbor on list =>
    (((s.interfaces.getD on.oi default).neighborLookup on.routerId).getD default).list list

def Lsdb.put (as : List Addr) : Lsdb → M ρ Unit
  | .interface oi => modifyInterface oi fun i => { i with lsdb := as }
  | .interfaceSelf oi => modifyInterface oi fun i => { i with lsdbSelf := as }
  | .interfaceLsupdate oi => modifyInterface oi fun i => { i with lsupdateList := as }
  | .interfaceLsack oi => modifyInterface oi fun i => { i with lsackList := as }
  | .area oa => modifyArea oa fun a => { a with lsdb := as }
  | .areaSelf oa => modifyArea oa fun a => { a with lsdbSelf := as }
  | .as => modify fun s => { s with lsdb := as }
  | .neighbor on list => modifyNeighbor on fun n => n.setList as list

end Access

section Threads

variable {ρ : Type}

open Prog

/-- `thread_add_event`: the events run in the order they were added. -/
def threadAddEvent (t : Thread) : M ρ Unit := modify fun s => { s with events := s.events ++ [t] }

/-- `thread_add_timer`; which timer is the next to fire is not for the state to say. -/
def threadAddTimer (t : Thread) : M ρ Unit := modify fun s => { s with timers := s.timers ++ [t] }

/-- `THREAD_OFF` of a pointer. -/
def threadOff : Option Thread → M ρ Unit
  | none => pure ()
  | some t => modify fun s =>
      if t ∈ s.events then { s with events := s.events.erase t } else { s with timers := s.timers.erase t }

end Threads

/-! ### Programs on the heap -/

section Heap

variable {ρ : Type}

open Prog

/-- `zebralite_gettime(ZEBRALITE_CLK_MONOTONIC, ..)`. -/
def gettime : M ρ Timeval := hidden fun m => (m.clock 0, m.tick)

/-- The LSAs but for what the clock enters. -/
def infos : M ρ (Addr → LsaInfo) := hidden fun m => (fun a => (m.lsa a).toLsaInfo, m)

def keys : M ρ (Addr → Option LsaKey) := hidden fun m => (m.key, m)

def info (a : Addr) : M ρ LsaInfo := do
  let info ← infos
  pure (info a)

def modifyLsa (a : Addr) (f : Lsa → Lsa) : M ρ Unit :=
  hidden fun m => ((), m.update a f)

def modifyInfo (a : Addr) (f : LsaInfo → LsaInfo) : M ρ Unit :=
  modifyLsa a fun l => { l with toLsaInfo := f l.toLsaInfo }

/-- A new object on the heap. -/
def calloc (l : Lsa) : M ρ Addr := hidden fun m => (m.heap.length, m.push l)

end Heap

end Harry.Sibling
