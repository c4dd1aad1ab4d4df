import Mathlib.Data.List.Basic
import Mathlib.Tactic.SplitIfs
import Harry.BaseExec
import Harry.RfpMessage

/-! The controller's view of its siblings (`sib_router.h` and the file-scope variables of
`sib_router.c`), what it sends, and the functions that create, reuse and move a sibling through its
states. Pointers to siblings are positions in the two tables; a position that is not there yet is
the null pointer of the source. Buffers are values, except where one buffer is sent more than once:
there the send that takes the whole of it also frees it. -/

open Harry.Base Harry.Rfp

namespace Harry.Controller

/-- `enum sib_router_state`. -/
inductive SibRouterState where
  | connecting | connected | featuresReqRcvd | redistributeReqRcvd | featuresRedisReqRcvd
  | featuresAddrReqRcvd | routing | disconnected
  deriving DecidableEq, Repr

/-- `struct sib_router`, less the connection, its name and the acknowledgement timer, which is
never started. -/
structure SibRouter where
  state : SibRouterState
  currentIngressXid : UInt32
  currentIngressAckRcvd : Bool
  currentEgressXid : UInt32
  waitingOnFirstEgressMsg : Bool
  msgsRcvdQueue : List Rfpbuf
  isLeader : Bool
  deriving DecidableEq

/-- `voter_type_conf`. -/
inductive VoterType where
  | any | all
  deriving DecidableEq, Repr

/-- A `struct sib_router *`: an entry of `ospf6_siblings` or of `bgp_siblings`. -/
inductive SibRef where
  | ospf6 (i : Nat)
  | bgp (i : Nat)
  deriving DecidableEq, Repr

inductive AddressFamily where
  | inet | inet6
  deriving DecidableEq, Repr

/-- `struct connected`: an address of a port. -/
structure Connected where
  family : AddressFamily
  prefixlen : UInt8
  addr : List UInt8
  deriving DecidableEq

/-- `struct interface`, as far as the replies to siblings read it. -/
structure Interface where
  ifindex : UInt32
  name : List UInt8
  state : UInt32
  mtu : UInt32
  connected : List Connected
  deriving DecidableEq

/-- `struct router`, as far as the siblings' side reads it. -/
structure Router where
  portList : List Interface
  deriving DecidableEq

/-- A `struct rib` of the unicast table with the prefix of its node. -/
structure RibRoute where
  prefixlen : UInt8
  addr : List UInt8
  distance : UInt8
  deriving DecidableEq

/-- The place in `sib_router.c` a message to a router comes from. -/
inductive CallSite where
  | voteMajority
  | forwardBgp
  deriving DecidableEq, Repr

/-- What the controller does to the outside: messages handed to a router's or a sibling's
connection, the note that a vote was won, and the write of the egress key of the database. -/
inductive Output where
  | routerForward (site : CallSite) (router : Nat) (msg : Rfpbuf)
  | featuresReply (dst : SibRef) (xid : UInt32) (ports : List Interface)
  | addressReply (dst : SibRef) (xid : UInt32) (ifindex : UInt32) (ifc : Connected)
  | routeReply (dst : SibRef) (xid : UInt32) (route : RibRoute)
  | leaderElect (dst : Nat) (xid : UInt32)
  | ingress (dst : Nat) (msg : Rfpbuf)
  | achievedMajority
  | dbSetEgressXid (xid : UInt32)
  deriving DecidableEq

/-- The variables of `sib_router.c`. `rib` lists the routes of the unicast table in the order of a
walk from `route_top`. -/
structure State where
  routers : List Router
  rib : List RibRoute
  numSibsConf : Int
  voterTypeConf : VoterType
  nOspf6Siblings : Nat
  ospf6Siblings : List SibRouter
  nOspf6SiblingsRouting : Int
  leaderSibling : Option SibRef
  nBgpSiblings : Nat
  bgpSiblings : List SibRouter
  deriving DecidableEq

def maxOspf6Siblings : Nat := 9

def maxBgpSiblings : Nat := 3

def distanceInfinity : UInt8 := 255

namespace State

/-- The sibling a pointer points to. -/
def sib (c : State) : SibRef → Option SibRouter
  | .ospf6 i => c.ospf6Siblings[i]?
  | .bgp i => c.bgpSiblings[i]?

/-- Writes back a sibling through its pointer. -/
def setSib (c : State) : SibRef → SibRouter → State
  | .ospf6 i, sr => { c with ospf6Siblings := c.ospf6Siblings.set i sr }
  | .bgp i, sr => { c with bgpSiblings := c.bgpSiblings.set i sr }

/-- Adds to the counter of routing siblings. -/
def addRouting (c : State) (d : Int) : State :=
  { c with nOspf6SiblingsRouting := c.nOspf6SiblingsRouting + d }

/-- `sib_router_init`. The listeners are left out; `*my_n_routers_p` and `my_routers` are the list of
routers. -/
def sibRouterInit (routers : List Router) (rib : List RibRoute) (numSibs : Int)
    (voterType : VoterType) : State where
  routers := routers
  rib := rib
  numSibsConf := numSibs
  voterTypeConf := voterType
  nOspf6Siblings := 0
  ospf6Siblings := []
  nOspf6SiblingsRouting := 0
  leaderSibling := none
  nBgpSiblings := 0
  bgpSiblings := []

end State

/-- `sib_router_send_leader_elect`: one message to every slot of `ospf6_siblings`. An accept counts
its new slot before the pointer is stored there. -/
def sibRouterSendLeaderElect (c : State) : Exec Output Unit := do
  Exec.emits (c.ospf6Siblings.mapIdx fun i sr => .leaderElect i sr.currentIngressXid)
  Exec.require (c.nOspf6Siblings ≤ c.ospf6Siblings.length)

/-- The transition from a received request to routing. -/
def entersRouting (old new : SibRouterState) : Bool :=
  decide ((old = .featuresRedisReqRcvd ∨ old = .featuresAddrReqRcvd) ∧ new = .routing)

/-- The transition from routing to disconnected. -/
def leavesRouting (old new : SibRouterState) : Bool :=
  decide (old = .routing ∧ new = .disconnected)

/-- What a transition adds to `n_ospf6_siblings_routing`. -/
def routingDelta (old new : SibRouterState) : Int :=
  (if entersRouting old new then 1 else 0) - (if leavesRouting old new then 1 else 0)

/-- What a transition makes of the sibling. -/
def SibRouter.moved (sr : SibRouter) (new : SibRouterState) : SibRouter :=
  { sr with
    state := new
    waitingOnFirstEgressMsg := entersRouting sr.state new || sr.waitingOnFirstEgressMsg }

/-- `state_transition`. -/
def stateTransition (sr : SibRouter) (state : SibRouterState) (c : State) :
    Exec Output (SibRouter × State) := do
  let c' := c.addRouting (routingDelta sr.state state)
  Exec.when (c'.nOspf6SiblingsRouting = c'.numSibsConf) (sibRouterSendLeaderElect c')
  pure (sr.moved state, c')

/-- `sib_router_reuse`. -/
def sibRouterReuse (sr : SibRouter) (c : State) : Exec Output (SibRouter × State) := do
  let (sr', c') ← stateTransition sr .connecting c
  pure ({ sr' with
    msgsRcvdQueue := []
    currentEgressXid := 0
    waitingOnFirstEgressMsg := false
    currentIngressXid := 0 }, c')

/-- `sib_router_create`; `raw` is what `malloc` returned. -/
def sibRouterCreate (raw : SibRouter) (c : State) : Exec Output (SibRouter × State) := do
  let (sr', c') ← stateTransition raw .connecting c
  pure ({ sr' with
    msgsRcvdQueue := []
    currentEgressXid := 0
    waitingOnFirstEgressMsg := false
    currentIngressXid := 0
    isLeader := false }, c')

/-- `sib_router_destroy`. -/
def sibRouterDestroy (k : SibRef) (c : State) : Exec Output State := do
  let sr ← Exec.deref (c.sib k)
  let (sr', c') ← stateTransition sr .disconnected c
  pure (c'.setSib k { sr' with waitingOnFirstEgressMsg := false, msgsRcvdQueue := [] })

/-- `sib_listener_accept` on the port of the OSPF6 siblings: the first disconnected slot is reused,
otherwise a new one is opened. -/
def sibListenerAcceptOspf6 (raw : SibRouter) (c : State) : Exec Output State :=
  match c.ospf6Siblings.findIdx? (·.state = .disconnected) with
  | some i => do
    let sr ← Exec.deref c.ospf6Siblings[i]?
    let (sr', c') ← sibRouterReuse sr c
    pure (c'.setSib (.ospf6 i) sr')
  | none => do
    let (sr', c') ← sibRouterCreate raw { c with nOspf6Siblings := c.nOspf6Siblings + 1 }
    -- the slot past the end of the array
    Exec.require (c.nOspf6Siblings < maxOspf6Siblings)
    pure { c' with ospf6Siblings := c'.ospf6Siblings ++ [sr'] }

/-- `sib_listener_accept` on the port of the BGP siblings: always a new slot. -/
def sibListenerAcceptBgp (raw : SibRouter) (c : State) : Exec Output State := do
  let (sr', c') ← sibRouterCreate raw { c with nBgpSiblings := c.nBgpSiblings + 1 }
  Exec.require (c.nBgpSiblings < maxBgpSiblings)
  pure { c' with bgpSiblings := c'.bgpSiblings ++ [sr'] }

/-! ### What these functions do -/

namespace State

@[simp] theorem sib_ospf6 (c : State) (i : Nat) : c.sib (.ospf6 i) = c.ospf6Siblings[i]? := rfl
@[simp] theorem sib_bgp (c : State) (i : Nat) : c.sib (.bgp i) = c.bgpSiblings[i]? := rfl

/-- A write through a valid pointer changes that sibling and no other. -/
theorem sib_setSib {c : State} {k : SibRef} {old : SibRouter} (h : c.sib k = some old) (sr : SibRouter)
    (k' : SibRef) : (c.setSib k sr).sib k' = if k' = k then some sr else c.sib k' := by
  cases k with
  | ospf6 i =>
      obtain ⟨hi, -⟩ := List.getElem?_eq_some_iff.mp h
      cases k' with
      | ospf6 j =>
          by_cases hij : j = i
          · subst hij
            simp [setSib, hi]
          · simp [setSib, hij, Ne.symm hij]
      | bgp j => simp [setSib]
  | bgp i =>
      obtain ⟨hi, -⟩ := List.getElem?_eq_some_iff.mp h
      cases k' with
      | ospf6 j => simp [setSib]
      | bgp j =>
          by_cases hij : j = i
          · subst hij
            simp [setSib, hi]
          · simp [setSib, hij, Ne.symm hij]

@[simp] theorem sib_addRouting (c : State) (d : Int) (k : SibRef) : (c.addRouting d).sib k = c.sib k := by
  cases k <;> rfl

theorem setSib_addRouting (c : State) (d : Int) (k : SibRef) (sr : SibRouter) :
    (c.addRouting d).setSib k sr = (c.setSib k sr).addRouting d := by
  cases k <;> rfl

section SetSib

variable (c : State) (k : SibRef) (sr : SibRouter)

@[simp] theorem setSib_routers : (c.setSib k sr).routers = c.routers := by cases k <;> rfl
@[simp] theorem setSib_numSibsConf : (c.setSib k sr).numSibsConf = c.numSibsConf := by
  cases k <;> rfl
@[simp] theorem setSib_voterTypeConf : (c.setSib k sr).voterTypeConf = c.voterTypeConf := by
  cases k <;> rfl
@[simp] theorem setSib_nOspf6Siblings : (c.setSib k sr).nOspf6Siblings = c.nOspf6Siblings := by
  cases k <;> rfl
@[simp] theorem setSib_nOspf6SiblingsRouting :
    (c.setSib k sr).nOspf6SiblingsRouting = c.nOspf6SiblingsRouting := by cases k <;> rfl
@[simp] theorem setSib_leaderSibling : (c.setSib k sr).leaderSibling = c.leaderSibling := by
  cases k <;> rfl
@[simp] theorem setSib_nBgpSiblings : (c.setSib k sr).nBgpSiblings = c.nBgpSiblings := by
  cases k <;> rfl
@[simp] theorem length_ospf6Siblings_setSib :
    (c.setSib k sr).ospf6Siblings.length = c.ospf6Siblings.length := by cases k <;> simp [setSib]
@[simp] theorem length_bgpSiblings_setSib :
    (c.setSib k sr).bgpSiblings.length = c.bgpSiblings.length := by cases k <;> simp [setSib]

end SetSib

end State

theorem result_sibRouterSendLeaderElect {c : State} :
    (sibRouterSendLeaderElect c).result = some () ↔ c.nOspf6Siblings ≤ c.ospf6Siblings.length := by
  rw [sibRouterSendLeaderElect, Exec.result_bind_eq_some]
  simp only [Exec.result_emits, true_and, exists_const, Exec.result_require_eq_some]

theorem outs_sibRouterSendLeaderElect {c : State} :
    (sibRouterSendLeaderElect c).outs =
      c.ospf6Siblings.mapIdx fun i sr => .leaderElect i sr.currentIngressXid := by
  rw [sibRouterSendLeaderElect, Exec.outs_emits_bind, Exec.outs_require, List.append_nil]

section StateTransition

variable {sr : SibRouter} {new : SibRouterState} {c : State}

/-- A transition that returns has moved the sibling and the counter, and nothing else. -/
theorem result_stateTransition {p : SibRouter × State}
    (h : (stateTransition sr new c).result = some p) :
    p = (sr.moved new, c.addRouting (routingDelta sr.state new)) := by
  obtain ⟨_, -, h⟩ := Exec.result_bind_eq_some.mp h
  exact (Option.some.inj h).symm

/-- A transition can fail only at a slot that is counted and not filled yet. -/
theorem result_stateTransition_of_le (h : c.nOspf6Siblings ≤ c.ospf6Siblings.length) :
    (stateTransition sr new c).result =
      some (sr.moved new, c.addRouting (routingDelta sr.state new)) := by
  refine Exec.result_bind_eq_some.mpr ⟨(), ?_, rfl⟩
  exact Exec.result_when.mpr fun _ => result_sibRouterSendLeaderElect.mpr h

/-- A transition sends nothing but leader-election messages. -/
theorem outs_stateTransition {o : Output} (h : o ∈ (stateTransition sr new c).outs) :
    ∃ i xid, o = .leaderElect i xid := by
  rcases Exec.mem_outs_bind.mp h with h | ⟨_, -, h⟩
  · have hmem := (Exec.mem_outs_when.mp h).2
    rw [outs_sibRouterSendLeaderElect] at hmem
    obtain ⟨i, hi, rfl⟩ := List.mem_mapIdx.mp hmem
    exact ⟨_, _, rfl⟩
  · cases h

end StateTransition

end Harry.Controller
