import Harry.SiblingLsa

/-! `ospf6_lsdb.c`: the link state databases with the hooks they call (`ospf6_interface_lsdb_hook`,
`ospf6_area_lsdb_hook_add` and `_remove`), and the messages and threads that the hooks lead to. -/

namespace Harry.Sibling

open Harry.Base Harry.Rfp Prog

variable {ρ : Type}

/-- A message of a client, under its current transaction id, which then goes up by one. -/
def sendNext (client : Nat) (type : RfpType) (body : List UInt8) : M ρ Unit := do
  let s ← observe
  match s.ctrlClients[client]? with
  | none => fail
  | some c => do
      emit ⟨client, .routeflowAllocXid type c.currentXid body⟩
      modify fun s => { s with
        ctrlClients := s.ctrlClients.modify client fun c => { c with currentXid := c.currentXid + 1 } }

/-- The requests of a routing calculation, as `ctrl_client_route_set` sends them. -/
def routeSets (reqs : List (Nat × List UInt8)) : M ρ Unit :=
  reqs.forM fun r => sendNext r.1 .ipv6RouteSetRequest r.2

/-- What comes of a routing calculation: its requests, and the tables it leaves. -/
def routeCalc (calculated : Exec (Nat × List UInt8) ρ) : M ρ Unit := do
  routeSets calculated.outs
  match calculated.result with
  | none => fail
  | some routes => modify fun s => { s with routes := routes }

/-- The order of the tree: by type, advertising router and id. -/
def LsaKey.before (j k : LsaKey) : Bool :=
  decide (j.type < k.type) || (j.type == k.type &&
    (decide (j.advRouter < k.advRouter) || (j.advRouter == k.advRouter && decide (j.id < k.id))))

/-- An LSA put in its place in a database, and the one that had its key before. -/
def insertLsa (key : Addr → Option LsaKey) (a : Addr) : List Addr → List Addr × Option Addr
  | [] => ([a], none)
  | b :: bs =>
    if key b = key a then (a :: bs, some b)
    else if (key a).any fun j => (key b).any fun k => j.before k then (a :: b :: bs, none)
    else (b :: (insertLsa key a bs).1, (insertLsa key a bs).2)

/-- `ospf6_lsdb_lookup`. -/
def lsdbLookup (key : LsaKey) : Option Lsdb → M ρ (Option Addr)
  | none => pure none
  | some db => do
      let s ← observe
      let keyOf ← keys
      pure ((db.get s).find? fun a => keyOf a == some key)

/-- The LSAs of a database in the order of `ospf6_lsdb_head` and `ospf6_lsdb_next`. -/
def lsdbList (db : Lsdb) : M ρ (List Addr) := do
  let s ← observe
  let keyOf ← keys
  pure ((db.get s).filter fun a => (keyOf a).isSome)

/-- The LSAs of a type, as `ospf6_lsdb_type_head` and `ospf6_lsdb_type_next` go through them. -/
def lsdbTypeList (type : UInt16) (db : Lsdb) : M ρ (List Addr) := do
  let as ← lsdbList db
  let keyOf ← keys
  pure (as.filter fun a => (keyOf a).any fun k => k.type = type)

/-- `ospf6_new_ls_seqnum`. -/
def newLsSeqnum (key : LsaKey) (db : Lsdb) : M ρ UInt32 := do
  let old ← lsdbLookup key (some db)
  match old with
  | none => pure initialSequenceNumber
  | some a => do
      let l ← info a
      pure (l.header.seqnum + 1)

/-! ### Hooks -/

/-- `ospf6_spf_schedule`. -/
def spfSchedule (oa : Nat) (hostnum : UInt32) : M ρ Unit := do
  let a ← theArea oa
  if a.threadSpfCalculation.isSome then pure ()
  else do
    threadAddEvent (.spfCalculation oa hostnum)
    modifyArea oa fun a => { a with threadSpfCalculation := some (.spfCalculation oa hostnum) }

/-- `OSPF6_INTRA_PREFIX_LSA_SCHEDULE_TRANSIT`. -/
def intraPrefixLsaScheduleTransit (oi : Nat) : M ρ Unit := do
  let i ← theInterface oi
  if i.threadIntraPrefixLsa.isSome then pure ()
  else do
    threadAddEvent (.intraPrefixLsaOriginateTransit oi)
    modifyInterface oi fun i => { i with threadIntraPrefixLsa := some (.intraPrefixLsaOriginateTransit oi) }

/-- `OSPF6_ROUTER_LSA_SCHEDULE`. -/
def routerLsaSchedule (oa : Nat) (hostnum : UInt32) : M ρ Unit := do
  let a ← theArea oa
  if a.threadRouterLsa.isSome then pure ()
  else do
    threadAddEvent (.routerLsaOriginate oa hostnum)
    modifyArea oa fun a => { a with threadRouterLsa := some (.routerLsaOriginate oa hostnum) }

/-- `ospf6_interface_lsdb_hook`. -/
def interfaceLsdbHook (oi : Nat) (a : Addr) : M ρ Unit := do
  let l ← info a
  if l.header.type = lstypeLink then do
    let i ← theInterface oi
    when (i.state = .dr) (intraPrefixLsaScheduleTransit oi)
    let hostnum ← hostnumOf i
    spfSchedule i.area hostnum
  else pure ()

section Hooks

variable [RouteCalc ρ]

/-- `ospf6_intra_prefix_lsa_add`. -/
def intraPrefixLsaAdd (oa : Nat) (a : Addr) : M ρ Unit := do
  let old ← isMaxage a
  if old then pure ()
  else do
    let l ← info a
    let s ← observe
    routeCalc (RouteCalc.intraPrefixLsaAdd s.routes oa (s.areaList.getD oa default).areaId l)

/-- `ospf6_area_lsdb_hook_add`. -/
def areaLsdbHookAdd (oa : Nat) (a : Addr) : M ρ Unit := do
  let l ← info a
  if l.header.type = lstypeRouter ∨ l.header.type = lstypeNetwork then spfSchedule oa l.hostnum
  else if l.header.type = lstypeIntraPrefix then intraPrefixLsaAdd oa a
  else pure ()

/-- `ospf6_area_lsdb_hook_remove`. -/
def areaLsdbHookRemove (oa : Nat) (a : Addr) : M ρ Unit := do
  let l ← info a
  if l.header.type = lstypeRouter ∨ l.header.type = lstypeNetwork then spfSchedule oa l.hostnum
  else pure ()

/-- `lsdb->hook_add`, where there is one. -/
def hookAdd (db : Lsdb) (a : Addr) : M ρ Unit :=
  match db with
  | .interface oi => interfaceLsdbHook oi a
  | .area oa => areaLsdbHookAdd oa a
  | _ => pure ()

/-- `lsdb->hook_remove`, where there is one. -/
def hookRemove (db : Lsdb) (a : Addr) : M ρ Unit :=
  match db with
  | .interface oi => interfaceLsdbHook oi a
  | .area oa => areaLsdbHookRemove oa a
  | _ => pure ()

/-- The hooks where an LSA is not what it was. -/
def hookChange (db : Lsdb) (old a : Addr) : M ρ Unit := do
  let gone ← isMaxage a
  if gone then do
    hookRemove db old
    hookRemove db a
  else do
    let back ← isMaxage old
    if back then hookAdd db a
    else do
      hookRemove db old
      hookAdd db a

/-- The hooks where an LSA takes the place of another one. -/
def hookReplace (db : Lsdb) (old a : Addr) : M ρ Unit := do
  let changed ← lsaIsChanged old a
  when (changed = true) (hookChange db old a)

/-- The hook where an LSA is new in its place. -/
def hookInsert (db : Lsdb) (a : Addr) : M ρ Unit := do
  let gone ← isMaxage a
  if gone then hookRemove db a else hookAdd db a

/-- `ospf6_lsdb_add`. -/
def lsdbAdd (a : Addr) (db : Lsdb) : M ρ Unit := do
  let s ← observe
  let keyOf ← keys
  db.put (insertLsa keyOf a (db.get s)).1
  match (insertLsa keyOf a (db.get s)).2 with
  | some old => hookReplace db old a
  | none => hookInsert db a

/-- `ospf6_lsdb_remove`. -/
def lsdbRemove (a : Addr) (db : Lsdb) : M ρ Unit := do
  let s ← observe
  assert (decide (a ∈ db.get s))
  db.put ((db.get s).erase a)
  hookRemove db a

/-- `ospf6_lsdb_remove_all`. -/
def lsdbRemoveAll (db : Lsdb) : M ρ Unit := do
  let as ← lsdbList db
  as.forM fun a => lsdbRemove a db

end Hooks

end Harry.Sibling
