import Harry.SiblingFlood

/-! The events of the neighbor state machine (`ospf6_neighbor.c`) and of the interface state machine with
the election of the designated router (`ospf6_interface.c`). -/

namespace Harry.Sibling

open Harry.Base Harry.Rfp Prog

variable {ρ : Type}

def dbdescMsbit : UInt8 := 0x01
def dbdescMbit : UInt8 := 0x02
def dbdescIbit : UInt8 := 0x04

/-- `CHECK_FLAG`. -/
def checkFlag (bits flag : UInt8) : Bool := bits &&& flag != 0

/-- `ospf6_neighbor_state_change`. -/
def neighborStateChange (nextState : NeighborState) (on : NbrRef) : M ρ Unit := do
  let n ← theNeighbor on
  modifyNeighbor on fun n => { n with state := nextState }
  if n.state = nextState then pure ()
  else if n.state = .full ∨ nextState = .full then do
    let i ← theInterface on.oi
    let hostnum ← hostnumOf i
    routerLsaSchedule i.area hostnum
    when (i.state = .dr) (intraPrefixLsaScheduleTransit on.oi)
  else pure ()

/-- `need_adjacency`. -/
def needAdjacency (i : Interface) (routerId : UInt32) : Bool :=
  i.state = .pointtopoint || i.state = .dr || i.state = .bdr || i.drouter == routerId || i.bdrouter == routerId

/-- `THREAD_OFF (on->thread_send_dbdesc)` and the event set in its place. -/
def rescheduleDbdesc (on : NbrRef) (t : Thread) : M ρ Unit := do
  let n ← theNeighbor on
  threadOff n.threadSendDbdesc
  threadAddEvent t
  modifyNeighbor on fun n => { n with threadSendDbdesc := some t }

/-- `hello_received`. -/
def helloReceived (on : NbrRef) : M ρ Unit := do
  let n ← theNeighbor on
  threadOff n.inactivityTimer
  threadAddTimer (.inactivityTimer on)
  modifyNeighbor on fun n => { n with inactivityTimer := some (.inactivityTimer on) }
  if n.state = .down then neighborStateChange .init on else pure ()

/-- The three flags a negotiation begins with. -/
def setNegotiationBits (on : NbrRef) : M ρ Unit :=
  modifyNeighbor on fun n => { n with dbdescBits := n.dbdescBits ||| dbdescMsbit ||| dbdescMbit ||| dbdescIbit }

/-- `twoway_received`. -/
def twowayReceived (on : NbrRef) : M ρ Unit := do
  let n ← theNeighbor on
  if NeighborState.init < n.state then pure ()
  else do
    threadAddEvent (.neighborChange on.oi)
    let i ← theInterface on.oi
    if needAdjacency i on.routerId = false then neighborStateChange .twoway on
    else do
      neighborStateChange .exstart on
      setNegotiationBits on
      rescheduleDbdesc on (.dbdescSend on)

/-- `loading_done`. -/
def loadingDone (on : NbrRef) : M ρ Unit := do
  let n ← theNeighbor on
  if n.state ≠ .loading then pure ()
  else do
    assert n.requestList.isEmpty
    neighborStateChange .full on

/-- `adj_ok`. -/
def adjOk (on : NbrRef) : M ρ Unit := do
  let n ← theNeighbor on
  let i ← theInterface on.oi
  if n.state = .twoway ∧ needAdjacency i on.routerId = true then neighborStateChange .exstart on else pure ()

/-- `oneway_received`. -/
def onewayReceived (on : NbrRef) : M ρ Unit := do
  let n ← theNeighbor on
  if n.state < .twoway then pure ()
  else do
    neighborStateChange .init on
    threadAddEvent (.neighborChange on.oi)

section Lists

variable [RouteCalc ρ]

/-- The retransmission list emptied, with the counts of the originals. -/
def clearRetransList (on : NbrRef) : M ρ Unit := do
  let as ← lsdbList (.neighbor on .retransList)
  as.forM fun a => do
    decrementRetransCount a
    lsdbRemove a (.neighbor on .retransList)

/-- One LSA of a database in `negotiation_done`. -/
def summarize (on : NbrRef) (a : Addr) : M ρ Unit := do
  let gone ← isMaxage a
  if gone then do
    incrementRetransCount a
    let copy ← lsaCopy a
    lsdbAdd copy (.neighbor on .retransList)
  else do
    let copy ← lsaCopy a
    lsdbAdd copy (.neighbor on .summaryList)

/-- `negotiation_done`; the databases of the areas are not looked at. -/
def negotiationDone (on : NbrRef) : M ρ Unit := do
  let n ← theNeighbor on
  if n.state ≠ .exstart then pure ()
  else do
    lsdbRemoveAll (.neighbor on .summaryList)
    lsdbRemoveAll (.neighbor on .requestList)
    clearRetransList on
    let link ← lsdbList (.interface on.oi)
    link.forM (summarize on)
    let external ← lsdbList .as
    external.forM (summarize on)
    modifyNeighbor on fun n => { n with dbdescBits := n.dbdescBits &&& ~~~ dbdescIbit }
    neighborStateChange .exchange on

/-- `exchange_done`. -/
def exchangeDone (on : NbrRef) : M ρ Unit := do
  let n ← theNeighbor on
  if n.state ≠ .exchange then pure ()
  else do
    threadOff n.threadSendDbdesc
    modifyNeighbor on fun n => { n with threadSendDbdesc := none }
    lsdbRemoveAll (.neighbor on .dbdescList)
    neighborStateChange (if n.requestList.isEmpty then .full else .loading) on

/-- What `seqnumber_mismatch` and `bad_lsreq` both do: back to ExStart. -/
def renegotiate (on : NbrRef) : M ρ Unit := do
  let n ← theNeighbor on
  if n.state < .exchange then pure ()
  else do
    neighborStateChange .exstart on
    setNegotiationBits on
    lsdbRemoveAll (.neighbor on .summaryList)
    lsdbRemoveAll (.neighbor on .requestList)
    clearRetransList on
    rescheduleDbdesc on (.dbdescSend on)

/-- `seqnumber_mismatch`. -/
def seqnumberMismatch (on : NbrRef) : M ρ Unit := renegotiate on

/-- `bad_lsreq`. -/
def badLsreq (on : NbrRef) : M ρ Unit := renegotiate on

/-- The neighbor a thread has as its argument. -/
def Thread.neighbor : Thread → Option NbrRef
  | .dbdescSend on => some on
  | .dbdescSendNewone on => some on
  | .lsreqSend on => some on
  | .lsupdateSendNeighbor on => some on
  | .lsackSendNeighbor on => some on
  | .inactivityTimer on => some on
  | .exchangeDone on => some on
  | .loadingDone on => some on
  | .adjOk on => some on
  | .seqnumberMismatch on => some on
  | .badLsreq on => some on
  | _ => none

/-- `ospf6_neighbor_delete`, and its place in the list of neighbors. What is left pending for it keeps a
pointer to freed memory. -/
def neighborDelete (on : NbrRef) : M ρ Unit := do
  lsdbRemoveAll (.neighbor on .summaryList)
  lsdbRemoveAll (.neighbor on .requestList)
  clearRetransList on
  lsdbRemoveAll (.neighbor on .dbdescList)
  lsdbRemoveAll (.neighbor on .lsreqList)
  lsdbRemoveAll (.neighbor on .lsupdateList)
  lsdbRemoveAll (.neighbor on .lsackList)
  let n ← theNeighbor on
  threadOff n.inactivityTimer
  threadOff n.threadSendDbdesc
  threadOff n.threadSendLsreq
  threadOff n.threadSendLsupdate
  threadOff n.threadSendLsack
  modifyInterface on.oi fun i => { i with
    neighborList := i.neighborList.eraseP fun n => n.routerId == on.routerId }
  let dangle : Thread → Thread := fun t => if t.neighbor = some on then .dangling else t
  modify fun s => { s with events := s.events.map dangle, timers := s.timers.map dangle }

/-- `inactivity_timer`. -/
def inactivityTimer (on : NbrRef) : M ρ Unit := do
  modifyNeighbor on fun n =>
    { n with inactivityTimer := none, drouter := 0, prevDrouter := 0, bdrouter := 0, prevBdrouter := 0 }
  neighborStateChange .down on
  threadAddEvent (.neighborChange on.oi)
  neighborDelete on

end Lists

/-- `ospf6_neighbor_create`. -/
def Neighbor.create (routerId : UInt32) : Neighbor :=
  { (default : Neighbor) with
    state := .down, routerId := routerId, options := [0, 0, 0], dbdescLast := List.replicate 12 0 }

/-! ### Interfaces -/

/-- What an election looks at in a neighbor, or in the pseudo neighbor `myself`. -/
structure Candidate where
  myself : Bool
  state : NeighborState
  priority : UInt8
  routerId : UInt32
  drouter : UInt32
  bdrouter : UInt32
  deriving DecidableEq

def Neighbor.candidate (n : Neighbor) : Candidate where
  myself := false
  state := n.state
  priority := n.priority
  routerId := n.routerId
  drouter := n.drouter
  bdrouter := n.bdrouter

/-- `IS_ELIGIBLE`. -/
def Candidate.isEligible (c : Candidate) : Bool := !decide (c.state < .twoway) && c.priority != 0

def Candidate.claimsDr (c : Candidate) : Bool := c.drouter == c.routerId

def Candidate.claimsBdr (c : Candidate) : Bool := c.bdrouter == c.routerId

/-- Of two candidates that may stand, one that claims the office before one that does not, then by
priority and router id. -/
def better (stands claims : Candidate → Bool) (a b : Option Candidate) : Option Candidate :=
  match a.filter stands, b.filter stands with
  | none, none => none
  | none, some b => some b
  | some a, none => some a
  | some a, some b =>
    if claims a && !claims b then some a
    else if !claims a && claims b then some b
    else if b.priority < a.priority then some a
    else if a.priority < b.priority then some b
    else if b.routerId < a.routerId then some a
    else if a.routerId < b.routerId then some b
    else some a

/-- `better_bdrouter`. -/
def betterBdrouter : Option Candidate → Option Candidate → Option Candidate :=
  better (fun c => c.isEligible && !c.claimsDr) Candidate.claimsBdr

/-- `better_drouter`. -/
def betterDrouter : Option Candidate → Option Candidate → Option Candidate :=
  better (fun c => c.isEligible && c.claimsDr) Candidate.claimsDr

/-- The two offices, filled from the best of the neighbors and the router itself. -/
def electWith (bestDrouter bestBdrouter : Option Candidate) (myself : Candidate) :
    Option Candidate × Option Candidate :=
  let bdrouter := betterBdrouter bestBdrouter (some myself)
  ((betterDrouter bestDrouter (some myself)).or bdrouter, bdrouter)

/-- The router id of an office, zero where nobody holds it. -/
def routerIdOf (c : Option Candidate) : UInt32 := (c.map (·.routerId)).getD 0

/-- The outcome of `dr_election`: the router itself counts anew where it is newly, or no longer, in office. -/
def elect (routerId : UInt32) (i : Interface) : Option Candidate × Option Candidate :=
  let myself : Candidate := ⟨true, .twoway, i.priority, routerId, i.drouter, i.bdrouter⟩
  let neighbors := i.neighborList.map fun n => some n.candidate
  let bestBdrouter := neighbors.foldl betterBdrouter none
  let bestDrouter := neighbors.foldl betterDrouter none
  let first := electWith bestDrouter bestBdrouter myself
  let isMyself := fun c : Option Candidate => c.any (·.myself)
  if isMyself first.1 != myself.claimsDr || isMyself first.2 != myself.claimsBdr then
    electWith bestDrouter bestBdrouter
      { myself with drouter := routerIdOf first.1, bdrouter := routerIdOf first.2 }
  else first

/-- `dr_election`. -/
def drElection (oi : Nat) : M ρ InterfaceState := do
  let i ← theInterface oi
  let s ← observe
  let elected := elect s.routerId i
  when (i.drouter ≠ routerIdOf elected.1 ∨ i.bdrouter ≠ routerIdOf elected.2)
    (i.neighborList.forM fun n => when (¬ n.state < .twoway) (threadAddEvent (.adjOk ⟨oi, n.routerId⟩)))
  modifyInterface oi fun i => { i with drouter := routerIdOf elected.1, bdrouter := routerIdOf elected.2 }
  pure (if elected.1.any (·.myself) then .dr else if elected.2.any (·.myself) then .bdr else .drother)

/-- `ospf6_interface_state_change` to what an election gives. -/
def electState (oi : Nat) : M ρ Unit := do
  let nextState ← drElection oi
  modifyInterface oi fun i => { i with state := nextState }

/-- `wait_timer`. -/
def waitTimer (oi : Nat) : M ρ Unit := do
  let i ← theInterface oi
  if i.state = .waiting then electState oi else pure ()

/-- `neighbor_change`. -/
def neighborChange (oi : Nat) : M ρ Unit := do
  let i ← theInterface oi
  if i.state = .drother ∨ i.state = .bdr ∨ i.state = .dr then electState oi else pure ()

end Harry.Sibling
