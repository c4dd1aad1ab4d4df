import Harry.SiblingMessage

/-! The origination of LSAs and the routing calculation (`ospf6_intra.c`, `ospf6_spf.c`), and the sibling
as a machine: it takes a message, runs the event that is next in the queue or a timer that has expired. -/

namespace Harry.Sibling

open Harry.Base Harry.Rfp Prog

variable {ρ : Type}

def Interface.fullNeighbors (i : Interface) : List Neighbor := i.neighborList.filter fun n => n.state = .full

/-- The link description of an interface in a Router-LSA: none where the router is neither the designated
router nor adjacent to it. -/
def routerLsdesc (routerId : UInt32) (i : Interface) : List UInt8 :=
  if i.state = .dr then
    [2, 0] ++ htons i.cost.toNat ++ htonl i.ifindex ++ htonl i.ifindex ++ htonl routerId
  else
    match (i.neighborLookup i.drouter).filter fun n => n.state = .full with
    | none => []
    | some drouter =>
      [2, 0] ++ htons i.cost.toNat ++ htonl i.ifindex ++ htonl drouter.ifindex ++ htonl drouter.routerId

/-- The bits of a Router-LSA: border router of areas, and of the autonomous system. -/
def routerBits (s : State ρ) : UInt8 :=
  (if 1 < (s.areaList.filter (·.enabled)).length then 1 else 0) ||| (if s.externalCount ≠ 0 then 2 else 0)

section Originate

variable [RouteCalc ρ]

/-- `ospf6_lsa_originate_area` or `_interface` of an LSA made of a body. -/
def lsaOriginateIn (db : Lsdb) (type : UInt16) (id hostnum : UInt32) (body : List UInt8) : M ρ Unit := do
  let s ← observe
  let seqnum ← newLsSeqnum ⟨type, id, s.routerId⟩ db
  let header : LsaHeader := ⟨type, id, s.routerId, seqnum, 0, UInt16.ofNat (20 + body.length)⟩
  let a ← lsaCreate 0 { header with checksum := lsaChecksum header body } body
  modifyInfo a fun l => { l with hostnum := hostnum, lsdb := some db }
  lsaOriginate a

/-- One instance of the Router-LSA. -/
def routerLsaInstance (oa : Nat) (hostnum linkStateId : UInt32) (lsdescs : List UInt8) : M ρ Unit := do
  let s ← observe
  lsaOriginateIn (.area oa) lstypeRouter linkStateId hostnum ([routerBits s, 0, 0, 0x13] ++ lsdescs)

/-- The loop over the interfaces of an area, with the id of the instance and the descriptions in it; none
where the size limit leaves no room for a single one. -/
def routerLsaLoop (oa : Nat) (hostnum : UInt32) : List Nat → UInt32 → List UInt8 → M ρ (Option (UInt32 × List UInt8))
  | [], linkStateId, lsdescs => pure (some (linkStateId, lsdescs))
  | oi :: ois, linkStateId, lsdescs => do
      let i ← theInterface oi
      let area ← theArea oa
      let s ← observe
      if i.state = .down ∨ i.state = .loopback ∨ i.fullNeighbors = [] then
        routerLsaLoop oa hostnum ois linkStateId lsdescs
      else if area.routerLsaSizeLimit ≠ 0 ∧ area.routerLsaSizeLimit.toNat < 24 + lsdescs.length + 16 then
        if lsdescs = [] then pure none
        else do
          routerLsaInstance oa hostnum linkStateId lsdescs
          routerLsaLoop oa hostnum ois (linkStateId + 1) (routerLsdesc s.routerId i)
      else routerLsaLoop oa hostnum ois linkStateId (lsdescs ++ routerLsdesc s.routerId i)

/-- The premature aging of the Router-LSAs beyond the last instance. -/
def purgeRouterLsas (oa : Nat) (linkStateId : UInt32) : M ρ Unit := do
  let s ← observe
  let as ← lsdbTypeList lstypeRouter (.area oa)
  let keyOf ← keys
  (as.filter fun a => (keyOf a).any fun k => k.advRouter = s.routerId ∧ linkStateId ≤ k.id).forM lsaPurge

/-- `ospf6_router_lsa_originate`. -/
def routerLsaOriginate (oa : Nat) (hostnum : UInt32) : M ρ Unit := do
  modifyArea oa fun a => { a with threadRouterLsa := none }
  let area ← theArea oa
  let last ← routerLsaLoop oa hostnum area.ifList 0 []
  match last with
  | none => pure ()
  | some (linkStateId, lsdescs) =>
      if lsdescs = [] then purgeRouterLsas oa linkStateId
      else do
        routerLsaInstance oa hostnum linkStateId lsdescs
        purgeRouterLsas oa (linkStateId + 1)

/-- `if (old) ospf6_lsa_purge (old)`. -/
def purgeOld (old : Option Addr) : M ρ Unit :=
  match old with
  | none => pure ()
  | some old => lsaPurge old

/-- `ospf6_link_lsa_originate`. -/
def linkLsaOriginate (oi : Nat) : M ρ Unit := do
  modifyInterface oi fun i => { i with threadLinkLsa := none }
  let i ← theInterface oi
  let s ← observe
  match i.linklocalAddr with
  | none => do
      let old ← lsdbLookup ⟨lstypeLink, i.ifindex, s.routerId⟩ (some (.interface oi))
      purgeOld old
  | some linklocalAddr => do
      let area ← theArea i.area
      lsaOriginateIn (.interface oi) lstypeLink i.ifindex 0 ([i.priority] ++ area.options ++ linklocalAddr ++
        htonl (UInt32.ofNat i.routeConnected.length) ++ i.routeConnected.flatten)

/-- The LSAs that are not of `MaxAge`. -/
def withoutMaxage : List Addr → M ρ (List Addr)
  | [] => pure []
  | a :: as => do
      let gone ← isMaxage a
      let rest ← withoutMaxage as
      pure (if gone then rest else a :: rest)

/-- `ospf6_intra_prefix_lsa_originate_transit`. -/
def intraPrefixLsaOriginateTransit (oi : Nat) : M ρ Unit := do
  modifyInterface oi fun i => { i with threadIntraPrefixLsa := none }
  let i ← theInterface oi
  let s ← observe
  if i.state ≠ .dr ∨ i.fullNeighbors = [] then do
    let old ← lsdbLookup ⟨lstypeIntraPrefix, i.ifindex, s.routerId⟩ (some (.area i.area))
    purgeOld old
  else do
    let links ← lsdbTypeList lstypeLink (.interface oi)
    let links ← withoutMaxage links
    let info ← infos
    match RouteCalc.transitPrefixes ρ i s.routerId (s.areaList.getD i.area default).areaId (links.map info) with
    | none => fail
    | some [] => pure ()
    | some prefixes =>
      lsaOriginateIn (.area i.area) lstypeIntraPrefix i.ifindex 0 (htons prefixes.length ++ htons16 lstypeNetwork ++
        htonl i.ifindex ++ htonl s.routerId ++ prefixes.flatten)

/-- The LSAs the calculation works on; `MaxAge` is a matter for the Intra-Area-Prefix-LSAs only. -/
def maxageTests : List Addr → M ρ (List (LsaInfo × Bool))
  | [] => pure []
  | a :: as => do
      let l ← info a
      let gone ← (if l.header.type = lstypeIntraPrefix then isMaxage a else pure false)
      let rest ← maxageTests as
      pure ((l, gone) :: rest)

/-- `ospf6_spf_calculation_thread`. -/
def spfCalculation (oa : Nat) (hostnum : UInt32) : M ρ Unit := do
  modifyArea oa fun a => { a with threadSpfCalculation := none }
  let as ← lsdbList (.area oa)
  let lsas ← maxageTests as
  let s ← observe
  let info ← infos
  let links := s.interfaces.map fun i => (i.ifindex, i.lsdb.map info)
  routeCalc (RouteCalc.spfCalculation s.routes s.routerId oa (s.areaList.getD oa default).areaId hostnum lsas links)

/-! ### The machine -/

/-- A thread's function called with its argument. -/
def runThread : Thread → M ρ Unit
  | .helloSend oi => helloSend oi
  | .dbdescSend on => dbdescSend on
  | .dbdescSendNewone on => dbdescSendNewone on
  | .lsreqSend on => lsreqSend on
  | .lsupdateSendNeighbor on => lsupdateSendNeighbor on
  | .lsupdateSendInterface oi => lsupdateSendInterface oi
  | .lsackSendNeighbor on => lsackSendNeighbor on
  | .lsackSendInterface oi => lsackSendInterface oi
  | .inactivityTimer on => inactivityTimer on
  | .exchangeDone on => exchangeDone on
  | .loadingDone on => loadingDone on
  | .adjOk on => adjOk on
  | .seqnumberMismatch on => seqnumberMismatch on
  | .badLsreq on => badLsreq on
  | .neighborChange oi => neighborChange oi
  | .waitTimer oi => waitTimer oi
  | .routerLsaOriginate oa hostnum => routerLsaOriginate oa hostnum
  | .linkLsaOriginate oi => linkLsaOriginate oi
  | .intraPrefixLsaOriginateTransit oi => intraPrefixLsaOriginateTransit oi
  | .spfCalculation oa hostnum => spfCalculation oa hostnum
  | .dangling => fail

/-- What a sibling does next. -/
inductive Event where
  | recv (oi : Nat) (xid : UInt32) (frame : List UInt8)
  | event
  | timer (t : Thread)
  deriving DecidableEq

/-- What runs at an event of the scheduler. -/
inductive Task where
  | receive (oi : Nat) (xid : UInt32) (frame : List UInt8)
  | thread (t : Thread)
  | idle
  deriving DecidableEq

/-- The task of an event, and the state without what was pending for it. -/
def fetch (s : State ρ) : Event → Task × State ρ
  | .recv oi xid frame => (.receive oi xid frame, s)
  | .event =>
    match s.events with
    | [] => (.idle, s)
    | t :: ts => (.thread t, { s with events := ts })
  | .timer t => if t ∈ s.timers then (.thread t, { s with timers := s.timers.erase t }) else (.idle, s)

def runTask : Task → M ρ Unit
  | .receive oi xid frame => ospf6Receive oi xid frame
  | .thread t => runThread t
  | .idle => pure ()

/-- A step's event, with what it gets from outside, what the clock returns in it, and where the buffer it fills is
moved. -/
structure Input where
  event : Event
  outside : Outside
  clock : Nat → Timeval
  moves : Nat → Int

/-- A sibling between two steps. -/
structure Replica (ρ : Type) where
  state : State ρ
  heap : List Lsa

/-- The state a step's task starts from. -/
def Replica.enter (x : Replica ρ) (e : Input) : Task × State ρ :=
  fetch { x.state with outside := e.outside, sent := [] } e.event

/-- The outcome of a step. -/
def Replica.leave (s : State ρ) (heap : List Lsa) : Exec Output (Replica ρ) :=
  ⟨s.sent, if s.fault then none else some ⟨s, heap⟩⟩

/-- One sibling: a step's outputs are the messages it has sent, and it has no result after a fault. -/
def sibling : Machine (Replica ρ) Input Output where
  step x e :=
    let r := runTask (x.enter e).1 (x.enter e).2 ⟨x.heap, e.clock, e.moves⟩
    Replica.leave r.2.1 r.2.2.heap

end Originate

end Harry.Sibling
