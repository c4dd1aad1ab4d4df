import Harry.SiblingLsdb

/-! `ospf6_flood.c`: origination, flooding, installation and acknowledgement of LSAs, and the reception
of one (section 13 of RFC 2328). All interfaces count as broadcast ones (`if_is_broadcast`). -/

namespace Harry.Sibling

open Harry.Base Harry.Rfp Prog

variable {ρ : Type} [RouteCalc ρ]

/-- `ospf6_get_scoped_lsdb`, which is not implemented. -/
def getScopedLsdb (_ : LsaInfo) : Option Lsdb := none

/-- `ospf6_get_scoped_lsdb_self`. -/
def getScopedLsdbSelf (l : LsaInfo) : M ρ (Option Lsdb) :=
  match lsaScope l.header.type, l.lsdb with
  | .linklocal, some (.interface oi) => pure (some (.interfaceSelf oi))
  | .area, some (.area oa) => pure (some (.areaSelf oa))
  | .as, _ => pure none
  | _, _ => do
      fail
      pure none

/-- `ospf6_increment_retrans_count`. -/
def incrementRetransCount (a : Addr) : M ρ Unit :=
  modifyInfo a fun l => { l with retransCount := l.retransCount + 1 }

/-- `ospf6_decrement_retrans_count`: of the original in the database, not of the copy. -/
def decrementRetransCount (a : Addr) : M ρ Unit := do
  let l ← info a
  let orig ← lsdbLookup l.header.key (getScopedLsdb l)
  match orig with
  | none => pure ()
  | some orig => do
      modifyInfo orig fun l => { l with retransCount := l.retransCount - 1 }
      let l ← info orig
      assert (decide (0 ≤ l.retransCount))

/-- `ospf6_is_maxage_lsa_drop`; it returns nothing where a `MaxAge` LSA has no database copy. -/
def isMaxageLsaDrop (a : Addr) : M ρ Bool := do
  let gone ← isMaxage a
  if gone then do
    let l ← info a
    let old ← lsdbLookup l.header.key l.lsdb
    let s ← observe
    pure (old.isNone && s.outside.maxageLsaDrop)
  else pure false

/-- `ospf6_lsdb_remove` of an LSA that was found. -/
def removeFrom (db : Option Lsdb) (a : Option Addr) : M ρ Unit :=
  match db, a with
  | some db, some a => lsdbRemove a db
  | _, _ => pure ()

/-- `ospf6_lsa_purge`. -/
def lsaPurge (a : Addr) : M ρ Unit := do
  let l ← info a
  let lsdbSelf ← getScopedLsdbSelf l
  let self ← lsdbLookup l.header.key lsdbSelf
  removeFrom lsdbSelf self
  prematureAging a

/-- What (b) of `ospf6_flood_interface` decides about a neighbor that is not yet full. -/
def examineRequest (a : Addr) (on : NbrRef) : M ρ Bool := do
  let l ← info a
  let req ← lsdbLookup l.header.key (some (.neighbor on .requestList))
  match req with
  | none => pure true
  | some req => do
      let older ← lsaCompare a req
      if 0 < older then pure false
      else do
        let same ← lsaCompare a req
        if same = 0 then do
          lsdbRemove req (.neighbor on .requestList)
          pure false
        else do
          let newer ← lsaCompare a req
          when (newer < 0) (lsdbRemove req (.neighbor on .requestList))
          pure true

/-- A neighbor's turn in `ospf6_flood_interface`: whether the LSA has gone on its retransmission list. -/
def floodNeighbor (sender : Option NbrRef) (a : Addr) (on : NbrRef) : M ρ Bool := do
  let n ← theNeighbor on
  if n.state < .exchange then pure false
  else do
    let goOn ← (if n.state ≠ .full then examineRequest a on else pure true)
    if goOn = false ∨ sender = some on then pure false
    else do
      incrementRetransCount a
      let copy ← lsaCopy a
      lsdbAdd copy (.neighbor on .retransList)
      when (n.threadSendLsupdate.isNone = true) do
        threadAddTimer (.lsupdateSendNeighbor on)
        modifyNeighbor on fun n => { n with threadSendLsupdate := some (.lsupdateSendNeighbor on) }
      pure true

/-- The neighbors of an interface one after another, with the count of retransmissions. -/
def floodNeighbors (sender : Option NbrRef) (a : Addr) : List NbrRef → Int → M ρ Int
  | [], retransAdded => pure retransAdded
  | on :: ons, retransAdded => do
      let added ← floodNeighbor sender a on
      floodNeighbors sender a ons (if added then retransAdded + 1 else retransAdded)

/-- `ospf6_flood_interface`; `retrans_added` is not initialised. -/
def floodInterface (sender : Option NbrRef) (a : Addr) (oi : Nat) : M ρ Unit := do
  let i ← theInterface oi
  let s ← observe
  let retransAdded ← floodNeighbors sender a (i.neighborList.map fun n => ⟨oi, n.routerId⟩) s.outside.retransAdded
  let here := sender.filter fun on => on.oi = oi
  if retransAdded = 0 then pure ()
  else if here.any (fun on => on.routerId = i.drouter ∨ on.routerId = i.bdrouter) then pure ()
  else if here.isSome ∧ i.state = .bdr then pure ()
  else do
    let copy ← lsaCopy a
    lsdbAdd copy (.interfaceLsupdate oi)
    when (i.threadSendLsupdate.isNone = true) do
      threadAddEvent (.lsupdateSendInterface oi)
      modifyInterface oi fun i => { i with threadSendLsupdate := some (.lsupdateSendInterface oi) }

/-- `ospf6_flood_area`. -/
def floodArea (sender : Option NbrRef) (a : Addr) (oa : Nat) : M ρ Unit := do
  let l ← info a
  let area ← theArea oa
  area.ifList.forM fun oi =>
    if lsaScope l.header.type = .linklocal ∧ l.lsdb ≠ some (.interface oi) then pure ()
    else floodInterface sender a oi

/-- The area a database belongs to. -/
def areaOf (s : State ρ) : Option Lsdb → Option Nat
  | some (.area oa) => some oa
  | some (.interface oi) => (s.interfaces[oi]?).map (·.area)
  | _ => none

/-- `ospf6_flood`, that is `ospf6_flood_process`. -/
def flood (sender : Option NbrRef) (a : Addr) : M ρ Unit := do
  let l ← info a
  let s ← observe
  (List.range s.areaList.length).forM fun oa => do
    let area ← theArea oa
    let scope := lsaScope l.header.type
    if (scope = .area ∨ scope = .linklocal) ∧ areaOf s l.lsdb ≠ some oa then pure ()
    else if l.header.type = lstypeAsExternal ∧ area.stub = true then pure ()
    else floodArea sender a oa

/-- `ospf6_lsdb_add` to a database that has to be there. -/
def addTo (db : Option Lsdb) (a : Addr) : M ρ Unit :=
  match db with
  | none => fail
  | some db => lsdbAdd a db

/-- The time of an installation, with the age brought up to date. -/
def stampInstalled (a : Addr) : M ρ Unit := do
  let now ← gettime
  let _ ← ageCurrent a
  modifyLsa a fun l => { l with installed := now }

/-- `ospf6_install_lsa`; the expiration timer it sets does nothing. -/
def installLsa (a : Addr) : M ρ Unit := do
  let l ← info a
  stampInstalled a
  addTo l.lsdb a

/-- Whether an LSA differs from the database copy. -/
def differsFrom (old : Option Addr) (a : Addr) : M ρ Bool :=
  match old with
  | none => pure true
  | some old => lsaIsDiffer a old

/-- `ospf6_lsa_originate`. -/
def lsaOriginate (a : Addr) : M ρ Unit := do
  let l ← info a
  let old ← lsdbLookup l.header.key l.lsdb
  let differs ← differsFrom old a
  if differs then do
    let lsdbSelf ← getScopedLsdbSelf l
    let copy ← lsaCopy a
    addTo lsdbSelf copy
    headerPrint a
    flood none a
    installLsa a
  else pure ()

/-! ### Acknowledgement -/

/-- A delayed acknowledgement: on the list of the interface. -/
def acknowledgeDelayed (a : Addr) (oi : Nat) : M ρ Unit := do
  let copy ← lsaCopy a
  lsdbAdd copy (.interfaceLsack oi)
  let i ← theInterface oi
  when (i.threadSendLsack.isNone = true) do
    threadAddTimer (.lsackSendInterface oi)
    modifyInterface oi fun i => { i with threadSendLsack := some (.lsackSendInterface oi) }

/-- A direct acknowledgement: on the list of the neighbor. -/
def acknowledgeDirect (a : Addr) (sender : NbrRef) : M ρ Unit := do
  let copy ← lsaCopy a
  lsdbAdd copy (.neighbor sender .lsackList)
  let n ← theNeighbor sender
  when (n.threadSendLsack.isNone = true) do
    threadAddEvent (.lsackSendNeighbor sender)
    modifyNeighbor sender fun n => { n with threadSendLsack := some (.lsackSendNeighbor sender) }

/-- `ospf6_acknowledge_lsa_bdrouter`. -/
def acknowledgeLsaBdrouter (a : Addr) (ismoreRecent : Int) (sender : NbrRef) : M ρ Unit := do
  let l ← info a
  let i ← theInterface sender.oi
  if l.floodback then pure ()
  else if ismoreRecent < 0 then
    if i.drouter = sender.routerId then acknowledgeDelayed a sender.oi else pure ()
  else if l.duplicate && l.impliedack then
    if i.drouter = sender.routerId then acknowledgeDelayed a sender.oi else pure ()
  else if l.duplicate && !l.impliedack then acknowledgeDirect a sender
  else pure ()

/-- `ospf6_acknowledge_lsa_allother`. -/
def acknowledgeLsaAllother (a : Addr) (ismoreRecent : Int) (sender : NbrRef) : M ρ Unit := do
  let l ← info a
  if l.floodback then pure ()
  else if ismoreRecent < 0 then acknowledgeDelayed a sender.oi
  else if l.duplicate && l.impliedack then pure ()
  else if l.duplicate && !l.impliedack then acknowledgeDirect a sender
  else pure ()

/-- `ospf6_acknowledge_lsa`. -/
def acknowledgeLsa (a : Addr) (ismoreRecent : Int) (sender : NbrRef) : M ρ Unit := do
  let i ← theInterface sender.oi
  if i.state = .bdr then acknowledgeLsaBdrouter a ismoreRecent sender
  else acknowledgeLsaAllother a ismoreRecent sender

/-- An LSA as a packet carries it. -/
structure RawLsa where
  age : UInt16
  header : LsaHeader
  body : List UInt8
  deriving DecidableEq

/-- The database `ospf6_receive_lsa` picks by scope. -/
def receiveLsdb (sender : NbrRef) (type : UInt16) : M ρ (Option Lsdb) := do
  let i ← theInterface sender.oi
  match lsaScope type with
  | .linklocal => pure (some (.interface sender.oi))
  | .area => pure (some (.area i.area))
  | .as => pure (some .as)
  | .reserved => pure none

/-- The check of `MIN_LS_ARRIVAL` against the database copy. -/
def arrivedEarly (old : Option Addr) : M ρ Bool :=
  match old with
  | none => pure false
  | some old => do
      let now ← gettime
      hidden fun m => ((m.lsa old).arrivedAt now, m)

/-- Step (5) of `ospf6_receive_lsa`, past the comparison: the received LSA is the more recent one. -/
def receiveNewer (sender : NbrRef) (new : Addr) (old : Option Addr) : M ρ Unit := do
  let early ← arrivedEarly old
  if early then pure ()
  else do
    let l ← info new
    let s ← observe
    when (l.header.advRouter ≠ s.routerId) (flood (some sender) new)
    installLsa new
    acknowledgeLsa new (-1) sender

/-- An LSA on the retransmission list counts as acknowledged. -/
def impliedAck (sender : NbrRef) (new : Addr) (rem : Option Addr) : M ρ Unit :=
  match rem with
  | none => pure ()
  | some rem => do
      modifyInfo new fun l => { l with impliedack := true }
      decrementRetransCount rem
      lsdbRemove rem (.neighbor sender .retransList)

/-- Steps (6) to (8): the database copy is as recent or more. -/
def receiveOlder (sender : NbrRef) (new old : Addr) (ismoreRecent : Int) : M ρ Unit := do
  let l ← info new
  let req ← lsdbLookup l.header.key (some (.neighbor sender .requestList))
  if req.isSome then threadAddEvent (.badLsreq sender)
  else if ismoreRecent = 0 then do
    let rem ← lsdbLookup l.header.key (some (.neighbor sender .retransList))
    impliedAck sender new rem
    acknowledgeLsa new ismoreRecent sender
  else do
    let gone ← isMaxage old
    let o ← info old
    if gone ∧ o.header.seqnum = maxSequenceNumber then pure ()
    else do
      let copy ← lsaCopy old
      lsdbAdd copy (.neighbor sender .lsupdateList)
      let n ← theNeighbor sender
      when (n.threadSendLsupdate.isNone = true) do
        threadAddEvent (.lsupdateSendNeighbor sender)
        modifyNeighbor sender fun n => { n with threadSendLsupdate := some (.lsupdateSendNeighbor sender) }

/-- `ospf6_receive_lsa`. -/
def receiveLsa (sender : NbrRef) (hostnum : UInt32) (raw : RawLsa) : M ρ Unit := do
  let new ← lsaCreate raw.age raw.header raw.body
  modifyInfo new fun l => { l with hostnum := hostnum }
  if lsaChecksum raw.header raw.body ≠ raw.header.checksum then pure ()
  else do
    let lsdb ← receiveLsdb sender raw.header.type
    if lsdb.isNone then pure ()
    else do
      modifyInfo new fun l => { l with lsdb := lsdb }
      let drop ← isMaxageLsaDrop new
      if drop then pure ()
      else do
        let old ← lsdbLookup raw.header.key lsdb
        match old with
        | none => receiveNewer sender new none
        | some old => do
            let ismoreRecent ← lsaCompare new old
            let o ← info old
            when (raw.header.seqnum = o.header.seqnum) (modifyInfo new fun l => { l with duplicate := true })
            if ismoreRecent < 0 then receiveNewer sender new (some old)
            else receiveOlder sender new old ismoreRecent

end Harry.Sibling
