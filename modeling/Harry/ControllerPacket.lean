import Harry.ControllerVote

/-! `sib_router_process_packet` with all its branches, and the controller as a machine: its events
are the accepts of the two listeners, the first run of a new sibling, one message of a sibling, the
loss of a connection, a packet from the routers' side, and whatever else that side does to the
tables of routers and routes. -/

open Harry.Base Harry.Rfp

namespace Harry.Controller

/-- `sib_router_send_features_reply`: one buffer that grows by the ports of each router and is sent
after each of them. -/
def sibRouterSendFeaturesReply (env : Env) (k : SibRef) (xid : UInt32) (c : State) :
    Exec Output Unit :=
  sendEach env (fun i => .featuresReply k xid ((c.routers.take (i + 1)).flatMap (·.portList)))
    0 c.routers.length

/-- `sib_router_if_addr_add`. -/
def sibRouterIfAddrAdd (k : SibRef) (xid : UInt32) (c : State) : Exec Output Unit :=
  Exec.emits (c.routers.flatMap fun r => r.portList.flatMap fun ifp =>
    ifp.connected.map fun ifc => .addressReply k xid ifp.ifindex ifc)

/-- `sib_router_redistribute`. -/
def sibRouterRedistribute (k : SibRef) (xid : UInt32) (c : State) : Exec Output Unit :=
  Exec.emits ((c.rib.filter (·.distance ≠ distanceInfinity)).map fun r => .routeReply k xid r)

/-- A handshake request: accepted in an expected state with the expected transaction id, answered,
and followed by a state transition where `next` has one. -/
def handshakeRequest (k : SibRef) (xid : UInt32) (expects : SibRouterState → Bool)
    (reply : Exec Output Unit) (next : SibRouterState → Option SibRouterState) (sr : SibRouter)
    (c : State) : Exec Output State :=
  if xid = sr.currentEgressXid ∧ expects sr.state then do
    reply
    match next sr.state with
    | some state => do
      let (sr', c') ← stateTransition (bumpEgressXid sr) state c
      pure (c'.setSib k sr')
    | none => pure (c.setSib k (bumpEgressXid sr))
  else pure c

def featuresExpects (s : SibRouterState) : Bool :=
  decide (s = .connected) || decide (s = .redistributeReqRcvd)

def featuresNext : SibRouterState → Option SibRouterState
  | .connected => some .featuresReqRcvd
  | .redistributeReqRcvd => some .featuresRedisReqRcvd
  | _ => none

/-- `sr->state == SIB_FEATURES_REQ_RCVD || SIB_FEATURES_REDIS_REQ_RCVD`: the second operand is the
enumerator itself, a nonzero constant. -/
def ifAddressExpects (s : SibRouterState) : Bool := decide (s = .featuresReqRcvd) || true

def ifAddressNext : SibRouterState → Option SibRouterState
  | .featuresReqRcvd => some .featuresAddrReqRcvd
  | .featuresRedisReqRcvd => some .routing
  | _ => none

def redistributeExpects (s : SibRouterState) : Bool :=
  decide (s = .connected) || decide (s = .featuresReqRcvd) || decide (s = .featuresAddrReqRcvd)

def redistributeNext : SibRouterState → Option SibRouterState
  | .connected => some .redistributeReqRcvd
  | .featuresReqRcvd => some .featuresRedisReqRcvd
  | .featuresAddrReqRcvd => some .routing
  | _ => none

/-- The sequence number of the leader, when `leader_sibling` points to a sibling. -/
def leaderEgressXid (c : State) : Option UInt32 :=
  (c.leaderSibling.bind c.sib).map (·.currentEgressXid)

/-- The first `RFPT_FORWARD_OSPF6` after the handshake: a sibling other than the leader takes over
the leader's sequence number. -/
def syncFirstEgress (c : State) (sr : SibRouter) : SibRouter :=
  if sr.waitingOnFirstEgressMsg then
    { sr with
      currentEgressXid :=
        if sr.isLeader then sr.currentEgressXid
        else (leaderEgressXid c).getD sr.currentEgressXid
      waitingOnFirstEgressMsg := false }
  else sr

/-- First all siblings have to be connected, then a majority has to have a message. -/
def readyToVote (c : State) : Bool :=
  decide (c.nOspf6Siblings = c.numSibsConf) && majorityHaveMsgRcvd c

/-- An egress message of a sibling: voted on when it carries the current sequence number, queued
for later when it is ahead, rejected when it is behind. -/
def egressMsg (env : Env) (k : SibRef) (msg : Rfpbuf) (sr : SibRouter) (c : State) :
    Exec Output State :=
  if msg.xid = sr.currentEgressXid then
    if readyToVote (c.setSib k (appendMsgToRcvdQueue sr msg)) then
      voteMajority env (c.setSib k (appendMsgToRcvdQueue sr msg))
    else pure (c.setSib k (appendMsgToRcvdQueue sr msg))
  else if sr.currentEgressXid < msg.xid then pure (c.setSib k (appendMsgToRcvdQueue sr msg))
  else pure (c.setSib k sr)

/-! ### The other messages -/

/-- `RFPT_FORWARD_BGP`: a copy for each router. -/
def forwardBgp (msg : Rfpbuf) (c : State) : Exec Output State := do
  Exec.emits ((List.range c.routers.length).map fun i => .routerForward .forwardBgp i msg)
  pure c

/-- `RFPT_ACK`. -/
def ackMsg (k : SibRef) (xid : UInt32) (sr : SibRouter) (c : State) : State :=
  if xid = sr.currentIngressXid then c.setSib k { sr with currentIngressAckRcvd := true } else c

/-- `RFPT_REDISTRIBUTE_LEADER_ELECT`. A message without a body has the byte after it read. The
closing debug line follows `leader_sibling`, which is null until a first leader has announced
itself. -/
def redistributeLeaderElect (env : Env) (k : SibRef) (msg : Rfpbuf) (sr : SibRouter) (c : State) :
    Exec Output State := do
  let isLeader := decide (msg.data.getD 8 env.spare = 1)
  let c' : State := { c.setSib k { sr with isLeader := isLeader } with
    leaderSibling := if isLeader then some k else c.leaderSibling }
  Exec.require c'.leaderSibling.isSome
  pure c'

/-- `sib_router_process_packet`. -/
def sibRouterProcessPacket (env : Env) (k : SibRef) (msg : Rfpbuf) (c : State) :
    Exec Output State := do
  let sr ← Exec.deref (c.sib k)
  match msg.type with
  | some .featuresRequest =>
    handshakeRequest k msg.xid featuresExpects (sibRouterSendFeaturesReply env k msg.xid c)
      featuresNext sr c
  | some .ifAddressReq =>
    handshakeRequest k msg.xid ifAddressExpects (sibRouterIfAddrAdd k msg.xid c)
      ifAddressNext sr c
  | some .redistributeRequest =>
    handshakeRequest k msg.xid redistributeExpects (sibRouterRedistribute k msg.xid c)
      redistributeNext sr c
  | some .ipv6RouteSetRequest => egressMsg env k msg sr c
  | some .forwardOspf6 => egressMsg env k msg (syncFirstEgress c sr) c
  | some .forwardBgp => forwardBgp msg c
  | some .ack => pure (ackMsg k msg.xid sr c)
  | some .redistributeLeaderElect => redistributeLeaderElect env k msg sr c
  | _ => pure c

/-- The sibling takes part in routing. -/
def isRouting (sr : SibRouter) : Bool := decide (sr.state = .routing)

/-- What `sib_router_forward_ospf6` notes at a sibling. -/
def SibRouter.ingressSent (xid : UInt32) (sr : SibRouter) : SibRouter :=
  if isRouting sr then { sr with currentIngressXid := xid, currentIngressAckRcvd := false } else sr

/-- `sib_router_forward_ospf6`: an ingress packet goes to every routing sibling. -/
def sibRouterForwardOspf6 (msg : Rfpbuf) (xid : UInt32) (c : State) : Exec Output State := do
  Exec.emits (((List.range c.ospf6Siblings.length).filter fun i =>
    (c.ospf6Siblings[i]?).any isRouting).map fun i => .ingress i msg)
  pure { c with ospf6Siblings := c.ospf6Siblings.map (SibRouter.ingressSent xid) }

/-- What can happen to the controller. -/
inductive Event where
  | acceptOspf6 (raw : SibRouter)
  | acceptBgp (raw : SibRouter)
  | start (k : SibRef)
  | recv (k : SibRef) (msg : Rfpbuf) (env : Env)
  | destroy (k : SibRef)
  | ingress (msg : Rfpbuf) (xid : UInt32)
  | routerSide (routers : List Router) (rib : List RibRoute)

/-- One event. `sib_router_run` is scheduled for a sibling until `sib_router_destroy` has been called
for it, and not again before its slot is reused, so an event of a disconnected sibling is none; its
first run only moves the sibling to `SIB_CONNECTED`. -/
def step (c : State) : Event → Exec Output State
  | .acceptOspf6 raw => sibListenerAcceptOspf6 raw c
  | .acceptBgp raw => sibListenerAcceptBgp raw c
  | .start k =>
    match c.sib k with
    | some sr =>
      if sr.state = .connecting then do
        let (sr', c') ← stateTransition sr .connected c
        pure (c'.setSib k sr')
      else pure c
    | none => pure c
  | .recv k msg env =>
    match c.sib k with
    | some sr => if sr.state = .disconnected then pure c else sibRouterProcessPacket env k msg c
    | none => pure c
  | .destroy k =>
    match c.sib k with
    | some sr => if sr.state = .disconnected then pure c else sibRouterDestroy k c
    | none => pure c
  | .ingress msg xid => sibRouterForwardOspf6 msg xid c
  | .routerSide routers rib => pure { c with routers := routers, rib := rib }

def machine : Machine State Event Output := ⟨step⟩

/-- The states of a controller that has been started with some configuration. -/
def Reached (numSibs : Int) (voterType : VoterType) (c : State) : Prop :=
  ∃ routers rib, machine.Reachable (State.sibRouterInit routers rib numSibs voterType) c

/-- The requests a sibling's `ctrl_client` opens with, one transaction id each. -/
def handshakeRequests : List Rfpbuf :=
  [.routeflowAllocXid .featuresRequest 0 [], .routeflowAllocXid .redistributeRequest 1 [],
    .routeflowAllocXid .ifAddressReq 2 []]

/-- A slot of memory as `malloc` may return it. -/
def zeroedSib : SibRouter where
  state := .connecting
  currentIngressXid := 0
  currentIngressAckRcvd := false
  currentEgressXid := 0
  waitingOnFirstEgressMsg := false
  msgsRcvdQueue := []
  isLeader := false

/-- Connections that take every buffer at once. -/
def promptEnv : Env where
  whole _ := true
  spare := 0

/-- The first run of the sibling at slot `i` and its handshake. -/
def handshake (i : Nat) : List Event :=
  .start (.ospf6 i) :: handshakeRequests.map (.recv (.ospf6 i) · promptEnv)

/-- `n` OSPF6 siblings connect and finish the handshake one after another. -/
def connectAll (n : Nat) : List Event :=
  List.replicate n (.acceptOspf6 zeroedSib) ++ (List.range n).flatMap handshake

/-- The sibling at slot `i` sends an OSPF6 packet. -/
def sendOspf6 (i : Nat) (xid : UInt32) (packet : List UInt8) : Event :=
  .recv (.ospf6 i) (.routeflowAllocXid .forwardOspf6 xid packet) promptEnv

/-- The sibling at slot `i` says that it is the leader. -/
def announceLeader (i : Nat) : Event :=
  .recv (.ospf6 i) (.routeflowAllocXid .redistributeLeaderElect 3 [1]) promptEnv

end Harry.Controller
