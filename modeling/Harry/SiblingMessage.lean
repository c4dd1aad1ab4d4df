import Harry.SiblingNeighbor

/-! `ospf6_message.c`: the messages a sibling builds, each as the bytes that leave it, and the handlers of
the messages it gets. A frame is the bytes from the OSPF header on; a handler that would read past its end
faults. An obuf may be somewhere else when it has grown, and the MTU checks go on with the pointer to where its
header was. -/

namespace Harry.Sibling

open Harry.Base Harry.Rfp Prog

variable {ρ : Type}

def messageTypeHello : UInt8 := 1
def messageTypeDbdesc : UInt8 := 2
def messageTypeLsreq : UInt8 := 3
def messageTypeLsupdate : UInt8 := 4
def messageTypeLsack : UInt8 := 5

/-- A `struct ospf6_header` as `ospf6_fill_header` fills it. -/
def ospf6Header (type : UInt8) (length : Nat) (routerId areaId : UInt32) : List UInt8 :=
  [3, type] ++ htons length ++ htonl routerId ++ htonl areaId ++ [0, 0, 0, 0]

/-- `ospf6_msg_send` of a message with this body. -/
def msgSend (i : Interface) (type : UInt8) (body : List UInt8) : M ρ Unit := do
  let s ← observe
  let area ← theArea i.area
  sendNext i.ctrlClient .forwardOspf6 (ospf6Header type (16 + body.length) s.routerId area.areaId ++ body)

/-- The length of a `struct rfpbuf`, and the bytes allocated for it. -/
structure Obuf where
  size : Nat
  allocated : Nat
  deriving DecidableEq

/-- `rfpbuf_put_uninit`. -/
def Obuf.put (b : Obuf) (n : Nat) : Obuf where
  size := b.size + n
  allocated := if b.allocated - b.size < n then b.size + max n 64 else b.allocated

/-- The obuf of a message when it has been given its `struct ospf6_header`, to which `oh` points. -/
def Obuf.ofHeader : Obuf := (Obuf.mk 8 8).put 16

/-- `p - (u_char *)oh`, where `p` is the end of the buffer. -/
def Obuf.offset (moves : Nat → Int) (b : Obuf) : Int :=
  b.size - 8 + if b.allocated = Obuf.ofHeader.allocated then 0 else moves b.allocated

/-- The MTU check of a DbDesc, an LSReq and an LSAck, in the type of `sizeof`. -/
def fullUnsigned (ifmtu : UInt32) (moves : Nat → Int) (b : Obuf) (n : Nat) : Bool :=
  decide ((ifmtu.toNat : Int) < (b.offset moves + n) % 2 ^ 64)

/-- The MTU check of an LSUpdate, in that of a difference of pointers. -/
def fullSigned (ifmtu : UInt32) (moves : Nat → Int) (b : Obuf) (n : Nat) : Bool :=
  decide ((ifmtu.toNat : Int) < b.offset moves + n)

/-- An MTU check, of the buffer of this step. -/
def mtuCheck (full : (Nat → Int) → Obuf → Nat → Bool) (b : Obuf) (n : Nat) : M ρ Bool :=
  hidden fun m => (full m.moves b n, m)

/-- `rfpbuf_at_assert`. -/
def rfpbufAtAssert (b : Obuf) (offset size : Nat) : M ρ Unit := assert (decide (offset + size ≤ b.size))

/-- What a loop over a list has put in a message: the bytes, the obuf they are in and the number of LSAs. -/
structure Part where
  bytes : List UInt8
  buf : Obuf
  num : Nat

/-- The LSAs that come behind another one. -/
def Part.cons (bytes : List UInt8) (p : Part) : Part := { p with bytes := bytes ++ p.bytes, num := p.num + 1 }

/-- The router ids of a Hello: the neighbors seen, up to the MTU. -/
def helloRouterIds (mtu : Nat) : Nat → List Neighbor → List UInt8
  | _, [] => []
  | i, on :: ons =>
    if on.state < .init then helloRouterIds mtu i ons
    else if mtu < 44 + 4 * i + 4 then []
    else htonl on.routerId ++ helloRouterIds mtu (i + 1) ons

/-- `ospf6_hello_send`; on a link that is down it is not set again. -/
def helloSend (oi : Nat) : M ρ Unit := do
  modifyInterface oi fun i => { i with threadSendHello := none }
  let i ← theInterface oi
  if i.linkDown then pure ()
  else do
    -- `synchronize_current_xid`
    modify fun s =>
      if s.restartedFirstEgressNotSent then
        { s with ctrlClients := s.ctrlClients.map fun c => { c with currentXid := s.outside.egressLeaderXid } }
      else s
    threadAddTimer (.helloSend oi)
    modifyInterface oi fun i => { i with threadSendHello := some (.helloSend oi) }
    msgSend i messageTypeHello (htonl i.ifindex ++ [i.priority, 0, 0, 0x13] ++ htons16 i.helloInterval ++
      htons16 i.deadInterval ++ htonl 0 ++ htonl 0 ++ helloRouterIds i.mtu.toNat 0 i.neighborList)
    modify fun s => { s with restartedFirstEgressNotSent := false }

/-- The LSA headers of a DbDesc, all with age zero. -/
def dbdescHeaders (ifmtu : UInt32) : Obuf → List Addr → M ρ Part
  | b, [] => pure ⟨[], b, 0⟩
  | b, a :: as => do
      clearAge a
      let full ← mtuCheck (fullUnsigned ifmtu) b 20
      if full then pure ⟨[], b, 0⟩
      else do
        let l ← info a
        let rest ← dbdescHeaders ifmtu (b.put 20) as
        pure (rest.cons (l.header.bytes 0))

/-- The obuf of a DbDesc without headers. -/
def Obuf.ofDbdesc : Obuf := Obuf.ofHeader.put 12

/-- The seconds of a clock as they go into a 32-bit number. -/
def Timeval.sec32 (t : Timeval) : UInt32 := UInt32.ofNat (t.sec % 2 ^ 32).toNat

/-- `ospf6_dbdesc_send`: an initial one takes its sequence number from the clock. -/
def dbdescSend (on : NbrRef) : M ρ Unit := do
  let n ← theNeighbor on
  let i ← theInterface on.oi
  modifyNeighbor on fun n => { n with threadSendDbdesc := none }
  if n.state < .exstart then pure ()
  else do
    when (checkFlag n.dbdescBits dbdescMsbit = true) do
      threadAddTimer (.dbdescSend on)
      modifyNeighbor on fun n => { n with threadSendDbdesc := some (.dbdescSend on) }
    let area ← theArea i.area
    let head := [0] ++ area.options ++ htons i.ifmtu.toNat ++ [0, n.dbdescBits]
    if checkFlag n.dbdescBits dbdescIbit then do
      let tv ← gettime
      modifyNeighbor on fun n => { n with dbdescSeqnum := tv.sec32 }
      rfpbufAtAssert .ofDbdesc 8 24
      msgSend i messageTypeDbdesc (head ++ htonl tv.sec32)
    else do
      let headers ← dbdescHeaders i.ifmtu .ofDbdesc n.dbdescList
      rfpbufAtAssert headers.buf 8 24
      msgSend i messageTypeDbdesc (head ++ htonl n.dbdescSeqnum ++ headers.bytes)

/-- The entries of an LSReq. -/
def lsreqEntries (ifmtu : UInt32) : Obuf → List Addr → M ρ Part
  | b, [] => pure ⟨[], b, 0⟩
  | b, a :: as => do
      let full ← mtuCheck (fullUnsigned ifmtu) b 12
      if full then pure ⟨[], b, 0⟩
      else do
        let l ← info a
        let rest ← lsreqEntries ifmtu (b.put 12) as
        pure (rest.cons ([0, 0] ++ htons16 l.header.type ++ htonl l.header.id ++ htonl l.header.advRouter))

/-- `ospf6_lsreq_send`. -/
def lsreqSend (on : NbrRef) : M ρ Unit := do
  let i ← theInterface on.oi
  modifyNeighbor on fun n => { n with threadSendLsreq := none }
  let n ← theNeighbor on
  if n.state ≠ .exchange ∧ n.state ≠ .loading then pure ()
  else if n.requestList.isEmpty then threadAddEvent (.loadingDone on)
  else do
    threadAddTimer (.lsreqSend on)
    modifyNeighbor on fun n => { n with threadSendLsreq := some (.lsreqSend on) }
    let entries ← lsreqEntries i.ifmtu .ofHeader n.requestList
    rfpbufAtAssert entries.buf 8 24
    msgSend i messageTypeLsreq entries.bytes

/-- An LSA as it is sent. -/
def LsaInfo.bytes (age : UInt16) (l : LsaInfo) : List UInt8 := l.header.bytes age ++ l.body

section Sending

variable [RouteCalc ρ]

/-- The move of LSAs from the summary list to the list of the next DbDesc. -/
def moveSummary (on : NbrRef) (ifmtu : Nat) : Nat → List Addr → M ρ Unit
  | _, [] => pure ()
  | size, a :: as =>
    if ifmtu < size + 20 then pure ()
    else do
      let copy ← lsaCopy a
      lsdbAdd copy (.neighbor on .dbdescList)
      lsdbRemove a (.neighbor on .summaryList)
      moveSummary on ifmtu (size + 20) as

/-- The end of `ospf6_dbdesc_send_newone`. -/
def dbdescSendMoved (on : NbrRef) : M ρ Unit := do
  let n ← theNeighbor on
  when (n.summaryList.isEmpty = true)
    (modifyNeighbor on fun n => { n with dbdescBits := n.dbdescBits &&& ~~~ dbdescMbit })
  let n ← theNeighbor on
  when (checkFlag n.dbdescBits dbdescMsbit = false ∧ checkFlag (n.dbdescLast.getD 7 0) dbdescMbit = false ∧
      checkFlag n.dbdescBits dbdescMbit = false) (threadAddEvent (.exchangeDone on))
  dbdescSend on

/-- `ospf6_dbdesc_send_newone`. -/
def dbdescSendNewone (on : NbrRef) : M ρ Unit := do
  let as ← lsdbList (.neighbor on .summaryList)
  lsdbRemoveAll (.neighbor on .dbdescList)
  let i ← theInterface on.oi
  moveSummary on i.ifmtu.toNat 32 as
  dbdescSendMoved on

/-- The loop of `ospf6_lsupdate_send_neighbor` over `lsupdate_list`: ages are zero, and what is sent leaves
the list. -/
def lsupdateOnce (on : NbrRef) (ifmtu : UInt32) : Obuf → List Addr → M ρ Part
  | b, [] => pure ⟨[], b, 0⟩
  | b, a :: as => do
      let l ← info a
      let full ← mtuCheck (fullSigned ifmtu) b l.header.length.toNat
      if full then pure ⟨[], b, 0⟩
      else do
        clearAge a
        lsdbRemove a (.neighbor on .lsupdateList)
        let rest ← lsupdateOnce on ifmtu (b.put l.header.length.toNat) as
        pure (rest.cons (l.bytes 0))

/-- The loop over `retrans_list`: with the age the LSA has now, and the delay of the interface. -/
def lsupdateRetrans (ifmtu : UInt32) (transdelay : UInt32) : Obuf → List Addr → M ρ Part
  | b, [] => pure ⟨[], b, 0⟩
  | b, a :: as => do
      let l ← info a
      let full ← mtuCheck (fullSigned ifmtu) b l.header.length.toNat
      if full then pure ⟨[], b, 0⟩
      else do
        let age ← ageUpdateToSend a transdelay
        let rest ← lsupdateRetrans ifmtu transdelay (b.put l.header.length.toNat) as
        pure (rest.cons (l.bytes age))

/-- The obuf of an LSUpdate without LSAs. -/
def Obuf.ofLsupdate : Obuf := Obuf.ofHeader.put 4

/-- The next turn of `ospf6_lsupdate_send_neighbor`, where something is left. -/
def lsupdateAgain (on : NbrRef) : M ρ Unit := do
  let n ← theNeighbor on
  if n.lsupdateList ≠ [] then do
    threadAddEvent (.lsupdateSendNeighbor on)
    modifyNeighbor on fun n => { n with threadSendLsupdate := some (.lsupdateSendNeighbor on) }
  else if n.retransList ≠ [] then do
    threadAddTimer (.lsupdateSendNeighbor on)
    modifyNeighbor on fun n => { n with threadSendLsupdate := some (.lsupdateSendNeighbor on) }
  else pure ()

/-- `ospf6_lsupdate_send_neighbor`. -/
def lsupdateSendNeighbor (on : NbrRef) : M ρ Unit := do
  let n ← theNeighbor on
  let i ← theInterface on.oi
  modifyNeighbor on fun n => { n with threadSendLsupdate := none }
  if n.state < .exchange then pure ()
  else if n.lsupdateList = [] ∧ n.retransList = [] then pure ()
  else do
    let once ← lsupdateOnce on i.ifmtu .ofLsupdate n.lsupdateList
    let retrans ← lsupdateRetrans i.ifmtu i.transdelay once.buf n.retransList
    rfpbufAtAssert retrans.buf 24 28
    rfpbufAtAssert retrans.buf 8 24
    msgSend i messageTypeLsupdate (htonl (UInt32.ofNat (once.num + retrans.num)) ++ once.bytes ++ retrans.bytes)
    lsupdateAgain on

/-- `ospf6_lsupdate_send_interface`, which does nothing. -/
def lsupdateSendInterface (_ : Nat) : M ρ Unit := pure ()

/-- The headers of an LSAck, from a list that they leave; and whether the packet was full before the end. -/
def lsackHeaders (db : Lsdb) (ifmtu : UInt32) (transdelay : UInt32) : Obuf → List Addr → M ρ (Part × Bool)
  | b, [] => pure (⟨[], b, 0⟩, false)
  | b, a :: as => do
      let full ← mtuCheck (fullUnsigned ifmtu) b 20
      if full then pure (⟨[], b, 0⟩, true)
      else do
        let age ← ageUpdateToSend a transdelay
        let l ← info a
        lsdbRemove a db
        let rest ← lsackHeaders db ifmtu transdelay (b.put 20) as
        pure (rest.1.cons (l.header.bytes age), rest.2)

/-- `ospf6_lsack_send_neighbor`. -/
def lsackSendNeighbor (on : NbrRef) : M ρ Unit := do
  let n ← theNeighbor on
  let i ← theInterface on.oi
  modifyNeighbor on fun n => { n with threadSendLsack := none }
  if n.state < .exchange then pure ()
  else if n.lsackList = [] then pure ()
  else do
    let acks ← lsackHeaders (.neighbor on .lsackList) i.ifmtu i.transdelay .ofHeader n.lsackList
    when (acks.2 = true) do
      threadAddEvent (.lsackSendNeighbor on)
      modifyNeighbor on fun n => { n with threadSendLsack := some (.lsackSendNeighbor on) }
    rfpbufAtAssert acks.1.buf 8 24
    msgSend i messageTypeLsack acks.1.bytes

/-- `ospf6_lsack_send_interface`. -/
def lsackSendInterface (oi : Nat) : M ρ Unit := do
  let i ← theInterface oi
  modifyInterface oi fun i => { i with threadSendLsack := none }
  if i.state.code ≤ InterfaceState.waiting.code then pure ()
  else if i.lsackList = [] then pure ()
  else do
    let acks ← lsackHeaders (.interfaceLsack oi) i.ifmtu i.transdelay .ofHeader i.lsackList
    when (acks.2 = true) do
      threadAddEvent (.lsackSendInterface oi)
      modifyInterface oi fun i => { i with threadSendLsack := some (.lsackSendInterface oi) }
    rfpbufAtAssert acks.1.buf 8 24
    msgSend i messageTypeLsack acks.1.bytes
    let i ← theInterface oi
    when (i.threadSendLsack.isNone = true ∧ i.lsackList ≠ []) do
      threadAddEvent (.lsackSendInterface oi)
      modifyInterface oi fun i => { i with threadSendLsack := some (.lsackSendInterface oi) }

end Sending

/-! ### Receiving -/

/-- The byte at an offset. -/
def u8At (bs : List UInt8) (i : Nat) : UInt8 := bs.getD i 0

/-- The number in the two bytes at an offset. -/
def u16At (bs : List UInt8) (i : Nat) : UInt16 := UInt16.ofNat ((u8At bs i).toNat * 2 ^ 8 + (u8At bs (i + 1)).toNat)

/-- The number in the four bytes at an offset. -/
def u32At (bs : List UInt8) (i : Nat) : UInt32 :=
  ntohl (u8At bs i) (u8At bs (i + 1)) (u8At bs (i + 2)) (u8At bs (i + 3))

/-- `ntohs (oh->length)`. -/
def ospf6Length (frame : List UInt8) : Nat := (u16At frame 2).toNat

/-- The offsets at which entries of a size begin that end before the message does. -/
def entryOffsets (frame : List UInt8) (start size : Nat) : List Nat :=
  (List.range ((ospf6Length frame - start) / size)).map fun j => start + j * size

/-- Those of them that lie in the frame. -/
def entriesInside (frame : List UInt8) (start size : Nat) : List Nat :=
  (entryOffsets frame start size).filter fun off => off + size ≤ frame.length

/-- Whether none of them runs past the end of the frame. -/
def entriesFit (frame : List UInt8) (start size : Nat) : Bool :=
  (entryOffsets frame start size).all fun off => off + size ≤ frame.length

/-- The header at an offset. -/
def lsaHeaderAt (frame : List UInt8) (off : Nat) : LsaHeader where
  type := u16At frame (off + 2)
  id := u32At frame (off + 4)
  advRouter := u32At frame (off + 8)
  seqnum := u32At frame (off + 12)
  checksum := u16At frame (off + 16)
  length := u16At frame (off + 18)

/-- The acknowledgement a Hello or a DbDesc is answered with, under its own transaction id. -/
def ackSend (i : Interface) (xid : UInt32) : M ρ Unit := do
  let s ← observe
  if s.restartMode then pure () else emit ⟨i.ctrlClient, .routeflowAllocXid .ack xid []⟩

/-- What a Hello changes in a neighbor. -/
def Neighbor.hear (frame : List UInt8) (n : Neighbor) : Neighbor :=
  let n := { n with ifindex := u32At frame 16, priority := u8At frame 20 }
  let n := if n.drouter = u32At frame 28 then n
    else { n with prevDrouter := n.drouter, drouter := u32At frame 28 }
  if n.bdrouter = u32At frame 32 then n
  else { n with prevBdrouter := n.bdrouter, bdrouter := u32At frame 32 }

/-- Whether it is a change for the election. -/
def Neighbor.changedBy (frame : List UInt8) (n : Neighbor) : Bool :=
  n.priority != u8At frame 20 ||
    (n.drouter != u32At frame 28 && (n.drouter == n.routerId || u32At frame 28 == n.routerId)) ||
    (n.bdrouter != u32At frame 32 && (n.bdrouter == n.routerId || u32At frame 32 == n.routerId))

/-- A neighbor at its first Hello. -/
def Neighbor.met (frame : List UInt8) : Neighbor :=
  { Neighbor.create (u32At frame 4) with
    prevDrouter := u32At frame 28, drouter := u32At frame 28, prevBdrouter := u32At frame 32
    bdrouter := u32At frame 32, priority := u8At frame 20 }

/-- `ospf6_hello_recv`. -/
def helloRecv (oi : Nat) (xid : UInt32) (frame : List UInt8) : M ρ Unit := do
  let i ← theInterface oi
  assert (decide (26 ≤ frame.length))
  if u16At frame 24 ≠ i.helloInterval then pure ()
  else do
    assert (decide (36 ≤ frame.length) && entriesFit frame 36 4)
    let on : NbrRef := ⟨oi, u32At frame 4⟩
    when ((i.neighborLookup on.routerId).isNone = true)
      (modifyInterface oi fun i => { i with neighborList := i.neighborList ++ [Neighbor.met frame] })
    let n ← theNeighbor on
    let s ← observe
    modifyNeighbor on (Neighbor.hear frame)
    helloReceived on
    (if (entriesInside frame 36 4).any (fun off => u32At frame off == s.routerId) then twowayReceived on
      else onewayReceived on)
    when (n.changedBy frame = true) (threadAddEvent (.neighborChange oi))
    ackSend i xid

section Receiving

variable [RouteCalc ρ]

/-- The database in which `ospf6_dbdesc_recv_slave` looks for an LSA; that of the area is not implemented,
and an LSA of reserved scope is freed before it is used. -/
def dbdescLsdb (on : NbrRef) (type : UInt16) : M ρ (Option Lsdb) :=
  match lsaScope type with
  | .linklocal => pure (some (.interface on.oi))
  | .area => pure none
  | .as => pure (some .as)
  | .reserved => do
      fail
      pure none

/-- One LSA header of a DbDesc. -/
def dbdescHeaderRecv (on : NbrRef) (frame : List UInt8) (off : Nat) : M ρ Unit := do
  let header := lsaHeaderAt frame off
  let his ← lsaCreateHeaderonly (u16At frame off) header
  let lsdb ← dbdescLsdb on header.type
  let mine ← lsdbLookup header.key lsdb
  match mine with
  | none => lsdbAdd his (.neighbor on .requestList)
  | some mine => do
      let c ← lsaCompare his mine
      if c < 0 then lsdbAdd his (.neighbor on .requestList) else pure ()

/-- The headers of an accepted DbDesc, and what is scheduled after them. -/
def dbdescAccept (on : NbrRef) (frame : List UInt8) : M ρ Unit := do
  (entriesInside frame 28 20).forM (dbdescHeaderRecv on frame)
  assert (entriesFit frame 28 20)
  modifyNeighbor on fun n => { n with dbdescSeqnum := u32At frame 24 }
  let n ← theNeighbor on
  when (n.threadSendLsreq.isNone = true) do
    threadAddEvent (.lsreqSend on)
    modifyNeighbor on fun n => { n with threadSendLsreq := some (.lsreqSend on) }
  rescheduleDbdesc on (.dbdescSendNewone on)
  modifyNeighbor on fun n => { n with dbdescLast := (frame.drop 16).take 12 }

/-- A DbDesc in ExStart: the neighbor is the master if all flags are set and there is no header. -/
def dbdescRecvExstart (on : NbrRef) (frame : List UInt8) : M ρ Unit := do
  assert (decide (24 ≤ frame.length))
  let bits := u8At frame 23
  if checkFlag bits dbdescIbit && checkFlag bits dbdescMbit && checkFlag bits dbdescMsbit &&
      ospf6Length frame == 28 then do
    assert (decide (28 ≤ frame.length))
    modifyNeighbor on fun n =>
      { n with dbdescBits := n.dbdescBits &&& ~~~ dbdescMsbit, dbdescSeqnum := u32At frame 24 }
    negotiationDone on
    modifyNeighbor on fun n => { n with options := (frame.drop 17).take 3 }
    dbdescAccept on frame
  else pure ()

/-- A DbDesc in Exchange. -/
def dbdescRecvExchange (on : NbrRef) (n : Neighbor) (frame : List UInt8) : M ρ Unit := do
  assert (decide (28 ≤ frame.length))
  let bits := u8At frame 23
  if (frame.drop 16).take 12 = n.dbdescLast then rescheduleDbdesc on (.dbdescSend on)
  else if checkFlag bits dbdescMsbit = false then threadAddEvent (.seqnumberMismatch on)
  else if checkFlag bits dbdescIbit = true then threadAddEvent (.seqnumberMismatch on)
  else if n.options ≠ (frame.drop 17).take 3 then threadAddEvent (.seqnumberMismatch on)
  else if u32At frame 24 ≠ n.dbdescSeqnum + 1 then threadAddEvent (.seqnumberMismatch on)
  else dbdescAccept on frame

/-- `ospf6_dbdesc_recv_slave`. -/
def dbdescRecvSlave (on : NbrRef) (frame : List UInt8) : M ρ Unit := do
  let n ← theNeighbor on
  match n.state with
  | .down | .attempt | .twoway => pure ()
  | .init => do
      twowayReceived on
      let n ← theNeighbor on
      if n.state = .exstart then dbdescRecvExstart on frame else pure ()
  | .exstart => dbdescRecvExstart on frame
  | .exchange => dbdescRecvExchange on n frame
  | .loading | .full => do
      assert (decide (28 ≤ frame.length))
      if (frame.drop 16).take 12 = n.dbdescLast then rescheduleDbdesc on (.dbdescSend on)
      else threadAddEvent (.seqnumberMismatch on)

/-- `ospf6_dbdesc_recv`; a wrong MTU matters only where messages are logged, and the master's side is not
implemented. -/
def dbdescRecv (oi : Nat) (xid : UInt32) (frame : List UInt8) : M ρ Unit := do
  let i ← theInterface oi
  let s ← observe
  let routerId := u32At frame 4
  if (i.neighborLookup routerId).isNone then pure ()
  else do
    assert (decide (22 ≤ frame.length))
    if (u16At frame 20).toNat ≠ i.ifmtu.toNat ∧ s.debugMsg = true then pure ()
    else do
      when (s.routerId < routerId) (dbdescRecvSlave ⟨oi, routerId⟩ frame)
      ackSend i xid

/-- The entry of an LSReq at an offset. -/
def lsreqKeyAt (frame : List UInt8) (off : Nat) : LsaKey :=
  ⟨u16At frame (off + 2), u32At frame (off + 4), u32At frame (off + 8)⟩

/-- The loop of `ospf6_lsreq_recv`: whether it gets to its end. The database stays that of an entry before
where the scope has none. -/
def lsreqLoop (on : NbrRef) : Option Lsdb → List LsaKey → M ρ Bool
  | _, [] => pure true
  | lsdb, key :: keys =>
    if lsaScope key.type = .reserved then lsreqLoop on lsdb keys
    else do
      let lsdb := if lsaScope key.type = .linklocal then some (Lsdb.interface on.oi) else lsdb
      let found ← lsdbLookup key lsdb
      match found with
      | none => do
          threadAddEvent (.badLsreq on)
          pure false
      | some a => do
          let copy ← lsaCopy a
          lsdbAdd copy (.neighbor on .lsupdateList)
          lsreqLoop on lsdb keys

/-- `ospf6_lsreq_recv`. -/
def lsreqRecv (oi : Nat) (frame : List UInt8) : M ρ Unit := do
  let i ← theInterface oi
  let on : NbrRef := ⟨oi, u32At frame 4⟩
  if (i.neighborLookup on.routerId).isNone then pure ()
  else do
    let atEnd ← lsreqLoop on none ((entriesInside frame 16 12).map (lsreqKeyAt frame))
    if atEnd then do
      assert (entriesFit frame 16 12)
      let n ← theNeighbor on
      threadOff n.threadSendLsupdate
      threadAddEvent (.lsupdateSendNeighbor on)
      modifyNeighbor on fun n => { n with threadSendLsupdate := some (.lsupdateSendNeighbor on) }
    else pure ()

/-- The LSAs of an LSUpdate, from an offset on with this many bytes of the message left; and whether none of
them runs past the end of the frame. The first number bounds the recursion. -/
def parseLsas (frame : List UInt8) : Nat → Nat → Nat → Nat → List RawLsa × Bool
  | 0, _, _, _ => ([], true)
  | fuel + 1, num, off, left =>
    let size := (u16At frame (off + 18)).toNat
    if left = 0 then ([], true)
    else if frame.length < off + 20 then ([], false)
    else if left < size ∨ num = 0 ∨ size < 20 then ([], true)
    else if frame.length < off + size then ([], false)
    else
      let rest := parseLsas frame fuel (num - 1) (off + size) (left - size)
      (⟨u16At frame off, lsaHeaderAt frame off, (frame.drop (off + 20)).take (size - 20)⟩ :: rest.1, rest.2)

/-- The LSAs of an LSUpdate. -/
def lsupdateLsas (frame : List UInt8) : List RawLsa × Bool :=
  parseLsas frame frame.length (u32At frame 16).toNat 20 (ospf6Length frame - 20)

/-- `ospf6_lsupdate_recv`. -/
def lsupdateRecv (oi : Nat) (frame : List UInt8) : M ρ Unit := do
  let i ← theInterface oi
  let on : NbrRef := ⟨oi, u32At frame 4⟩
  match i.neighborLookup on.routerId with
  | none => pure ()
  | some n =>
      if n.state ≠ .exchange ∧ n.state ≠ .loading ∧ n.state ≠ .full then pure ()
      else do
        assert (decide (20 ≤ frame.length))
        let hostnum ← hostnumOf i
        (lsupdateLsas frame).1.forM (receiveLsa on hostnum)
        assert (lsupdateLsas frame).2
        let n ← theNeighbor on
        if n.state = .exchange ∨ n.state = .loading then do
          threadOff n.threadSendLsreq
          threadAddEvent (.lsreqSend on)
          modifyNeighbor on fun n => { n with threadSendLsreq := some (.lsreqSend on) }
        else pure ()

/-- `ospf6_receive`; an LSAck is not looked into. -/
def ospf6Receive (oi : Nat) (xid : UInt32) (frame : List UInt8) : M ρ Unit := do
  let type := u8At frame 1
  assert (decide (if messageTypeHello ≤ type ∧ type ≤ messageTypeLsupdate then 16 ≤ frame.length else 2 ≤ frame.length))
  if type = messageTypeHello then helloRecv oi xid frame
  else if type = messageTypeDbdesc then dbdescRecv oi xid frame
  else if type = messageTypeLsreq then lsreqRecv oi frame
  else if type = messageTypeLsupdate then lsupdateRecv oi frame
  else pure ()

end Receiving

end Harry.Sibling
