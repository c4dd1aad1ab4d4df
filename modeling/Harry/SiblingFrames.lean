import Harry.SiblingAges

/-! Frames of the handlers. A relation of the states before and after a step is a frame for a handler if it is one for
the steps the handler takes. These steps are listed here in groups, from the plain ones, which touch neither the
databases nor the state machine of a neighbor, to those that only a few handlers take; and each handler is shown to stay
within every frame that has the groups it needs. -/

namespace Harry.Sibling

open Harry.Base Harry.Rfp Prog

variable {ρ : Type}

/-- What of an interface, of an area and of a neighbor only a step that is named below may change. -/
def Interface.kernel (i : Interface) : Nat × List Neighbor × List Addr × List Addr × List Addr × List Addr :=
  (i.area, i.neighborList, i.lsdb, i.lsdbSelf, i.lsupdateList, i.lsackList)

def Area.kernel (a : Area) : List Nat × Bool × List Addr × List Addr := (a.ifList, a.stub, a.lsdb, a.lsdbSelf)

/-- The part of a neighbor in the exchange of databases. -/
structure Exchange where
  state : NeighborState
  options : List UInt8
  dbdescBits : UInt8
  dbdescSeqnum : UInt32
  dbdescLast : List UInt8
  summaryList : List Addr
  requestList : List Addr
  retransList : List Addr
  dbdescList : List Addr
  lsreqList : List Addr
  lsupdateList : List Addr
  lsackList : List Addr
  threadSendDbdesc : Option Thread

def Neighbor.exchange (n : Neighbor) : Exchange where
  state := n.state
  options := n.options
  dbdescBits := n.dbdescBits
  dbdescSeqnum := n.dbdescSeqnum
  dbdescLast := n.dbdescLast
  summaryList := n.summaryList
  requestList := n.requestList
  retransList := n.retransList
  dbdescList := n.dbdescList
  lsreqList := n.lsreqList
  lsupdateList := n.lsupdateList
  lsackList := n.lsackList
  threadSendDbdesc := n.threadSendDbdesc

def State.kernel (s : State ρ) : UInt32 × List Area × List Interface × List Addr × List Thread × List Thread × Bool :=
  (s.routerId, s.areaList, s.interfaces, s.lsdb, s.events, s.timers, s.fault)

/-- Threads that are no event of the exchange of databases with a neighbor. -/
def Thread.Plain : Thread → Prop
  | .dbdescSend _ | .dbdescSendNewone _ | .exchangeDone _ | .loadingDone _ | .seqnumberMismatch _ | .badLsreq _ => False
  | _ => True

/-- What all handlers do. -/
structure Plain (R : State ρ × Mem → State ρ × Mem → Prop) : Prop where
  fail : Within R (fail : M ρ Unit)
  other : ∀ {f : State ρ → State ρ}, (∀ s, (f s).kernel = s.kernel) → Within R (modify f : M ρ Unit)
  interface : ∀ (oi : Nat) {f : Interface → Interface}, (∀ i, (f i).kernel = i.kernel) →
    Within R (modifyInterface oi f : M ρ Unit)
  area : ∀ (oa : Nat) {f : Area → Area}, (∀ a, (f a).kernel = a.kernel) → Within R (modifyArea oa f : M ρ Unit)
  neighbor : ∀ (on : NbrRef) {f : Neighbor → Neighbor},
    (∀ n, ((f n).routerId, (f n).exchange) = (n.routerId, n.exchange)) →
    Within R (modifyNeighbor on f : M ρ Unit)
  event : ∀ {t : Thread}, t.Plain → Within R (threadAddEvent t : M ρ Unit)
  timer : ∀ {t : Thread}, t.Plain → Within R (threadAddTimer t : M ρ Unit)
  gettime : Within R (gettime : M ρ Timeval)
  ageCurrent : ∀ a, Within R (ageCurrent a : M ρ UInt16)
  flag : ∀ (a : Addr) {f : LsaInfo → LsaInfo}, (∀ l, ((f l).header, (f l).body, (f l).headeronly, (f l).retransCount,
    (f l).lsdb) = (l.header, l.body, l.headeronly, l.retransCount, l.lsdb)) → Within R (modifyInfo a f : M ρ Unit)
  lsaCopy : ∀ a, Within R (lsaCopy a : M ρ Addr)
  lsaCreate : ∀ age header body, Within R (lsaCreate age header body : M ρ Addr)

namespace Plain

variable {R : State ρ × Mem → State ρ × Mem → Prop} [Frame R]

theorem read {α : Type} (f : Mem → α) : Within R (hidden fun m => (f m, m) : M ρ α) := .hidden fun _ _ => Frame.refl _

theorem infos : Within R (infos : M ρ (Addr → LsaInfo)) := read _

theorem keys : Within R (keys : M ρ (Addr → Option LsaKey)) := read _

theorem info (a : Addr) : Within R (info a : M ρ LsaInfo) := .bind infos fun _ => .pure _

theorem lsdbLookup (key : LsaKey) (db : Option Lsdb) : Within R (lsdbLookup key db : M ρ (Option Addr)) := by
  cases db with
  | none => exact .pure _
  | some db => exact .bind .observe fun _ => .bind keys fun _ => .pure _

theorem lsdbList (db : Lsdb) : Within R (lsdbList db : M ρ (List Addr)) :=
  .bind .observe fun _ => .bind keys fun _ => .pure _

theorem lsdbTypeList (type : UInt16) (db : Lsdb) : Within R (lsdbTypeList type db : M ρ (List Addr)) :=
  .bind (lsdbList db) fun _ => .bind keys fun _ => .pure _

/-- A list is emptied. -/
theorem removeAll {db : Lsdb} (hdb : ∀ a, Within R (Sibling.lsdbRemove a db : M ρ Unit)) :
    Within R (lsdbRemoveAll db : M ρ Unit) :=
  .bind (lsdbList db) fun _ => .forM fun a _ => hdb a

theorem newLsSeqnum (key : LsaKey) (db : Lsdb) : Within R (newLsSeqnum key db : M ρ UInt32) := by
  refine .bind (lsdbLookup key (some db)) fun old => ?_
  cases old with
  | none => exact .pure _
  | some a => exact .bind (info a) fun _ => .pure _

variable (h : Plain R)
include h

theorem assert (b : Bool) : Within R (assert b : M ρ Unit) := .ite (.pure _) h.fail

theorem theInterface (oi : Nat) : Within R (theInterface oi : M ρ Interface) := by
  refine .bind .observe fun s => ?_
  cases s.interfaces[oi]? with
  | none => exact .bind h.fail fun _ => .pure _
  | some i => exact .pure i

theorem theArea (oa : Nat) : Within R (theArea oa : M ρ Area) := by
  refine .bind .observe fun s => ?_
  cases s.areaList[oa]? with
  | none => exact .bind h.fail fun _ => .pure _
  | some a => exact .pure a

theorem theNeighbor (on : NbrRef) : Within R (theNeighbor on : M ρ Neighbor) := by
  refine .bind .observe fun s => ?_
  cases s.interfaces[on.oi]?.bind (·.neighborLookup on.routerId) with
  | none => exact .bind h.fail fun _ => .pure _
  | some n => exact .pure n

theorem hostnumOf (i : Interface) : Within R (hostnumOf i : M ρ UInt32) := by
  refine .bind .observe fun s => ?_
  cases s.ctrlClients[i.ctrlClient]? with
  | none => exact .bind h.fail fun _ => .pure _
  | some c => exact .pure _

omit [Frame R] in
theorem emit (o : Output) : Within R (emit o : M ρ Unit) := h.other fun s => by split <;> rfl

theorem sendNext (client : Nat) (type : RfpType) (body : List UInt8) :
    Within R (sendNext client type body : M ρ Unit) := by
  refine .bind .observe fun s => ?_
  cases s.ctrlClients[client]? with
  | none => exact h.fail
  | some c => exact .bind (h.emit _) fun _ => h.other fun _ => rfl

theorem msgSend (i : Interface) (type : UInt8) (body : List UInt8) : Within R (msgSend i type body : M ρ Unit) :=
  .bind .observe fun _ => .bind (h.theArea i.area) fun _ => h.sendNext _ _ _

theorem ackSend (i : Interface) (xid : UInt32) : Within R (ackSend i xid : M ρ Unit) :=
  .bind .observe fun _ => .ite (.pure _) (h.emit _)

theorem routeSets (reqs : List (Nat × List UInt8)) : Within R (routeSets reqs : M ρ Unit) :=
  .forM fun _ _ => h.sendNext _ _ _

theorem routeCalc (calculated : Exec (Nat × List UInt8) ρ) : Within R (routeCalc calculated : M ρ Unit) := by
  refine .bind (h.routeSets _) fun _ => ?_
  cases calculated.result with
  | none => exact h.fail
  | some routes => exact h.other fun _ => rfl

omit h in
theorem mtuCheck (full : (Nat → Int) → Obuf → Nat → Bool) (b : Obuf) (n : Nat) :
    Within R (mtuCheck full b n : M ρ Bool) := read _

omit h in
theorem lsreqEntries (ifmtu : UInt32) (as : List Addr) (b : Obuf) : Within R (lsreqEntries ifmtu b as : M ρ Part) := by
  induction as generalizing b with
  | nil => exact .pure _
  | cons a as ih =>
      refine .bind (mtuCheck _ _ _) fun full => .ite (.pure _) ?_
      exact .bind (info a) fun _ => .bind (ih _) fun _ => .pure _

theorem rfpbufAtAssert (b : Obuf) (offset size : Nat) : Within R (rfpbufAtAssert b offset size : M ρ Unit) := h.assert _

theorem isMaxage (a : Addr) : Within R (isMaxage a : M ρ Bool) := .bind (h.ageCurrent a) fun _ => .pure _

theorem headerPrint (a : Addr) : Within R (headerPrint a : M ρ Unit) := .bind (h.ageCurrent a) fun _ => .pure _

theorem compareAges (a b : Addr) : Within R (compareAges a b : M ρ Int) :=
  .bind (h.ageCurrent a) fun _ => .bind (h.ageCurrent b) fun _ => .pure _

theorem lsaCompare (a b : Addr) : Within R (lsaCompare a b : M ρ Int) :=
  .bind infos fun _ => .bind (h.assert _) fun _ => .ite (.pure _) <| .ite (.pure _) <| .ite (.pure _) <|
    .ite (.pure _) (h.compareAges a b)

theorem lsaIsChanged (a b : Addr) : Within R (lsaIsChanged a b : M ρ Bool) :=
  .bind (h.isMaxage a) fun _ => .bind (h.isMaxage b) fun _ => .bind infos fun _ => .ite (.pure _) <|
    .ite (.pure _) <| .bind (h.assert _) fun _ => .pure _

theorem lsaIsDiffer (a b : Addr) : Within R (lsaIsDiffer a b : M ρ Bool) :=
  .bind infos fun _ => .bind (h.assert _) fun _ => .bind (h.isMaxage a) fun _ => .bind (h.isMaxage b) fun _ =>
    .ite (.pure _) <| .ite (.pure _) (.pure _)

theorem differsFrom (old : Option Addr) (a : Addr) : Within R (differsFrom old a : M ρ Bool) := by
  cases old with
  | none => exact .pure _
  | some old => exact h.lsaIsDiffer a old

theorem isMaxageLsaDrop (a : Addr) : Within R (isMaxageLsaDrop a : M ρ Bool) :=
  .bind (h.isMaxage a) fun _ => .ite (.bind (info a) fun _ => .bind (lsdbLookup _ _) fun _ => .bind .observe fun _ =>
    .pure _) (.pure _)

theorem withoutMaxage (as : List Addr) : Within R (withoutMaxage as : M ρ (List Addr)) := by
  induction as with
  | nil => exact .pure _
  | cons a as ih => exact .bind (h.isMaxage a) fun _ => .bind ih fun _ => .pure _

theorem maxageTests (as : List Addr) : Within R (maxageTests as : M ρ (List (LsaInfo × Bool))) := by
  induction as with
  | nil => exact .pure _
  | cons a as ih =>
      refine .bind (info a) fun l => .bind (.ite (h.isMaxage a) (.pure _)) fun _ => .bind ih fun _ => .pure _

omit h in
/-- No original is ever found, for want of a scoped database. -/
theorem decrementRetransCount (a : Addr) : Within R (decrementRetransCount a : M ρ Unit) :=
  .bind (info a) fun _ => (Within.pure () : Within R (pure () : M ρ Unit))

theorem getScopedLsdbSelf (l : LsaInfo) : Within R (getScopedLsdbSelf l : M ρ (Option Lsdb)) := by
  unfold Sibling.getScopedLsdbSelf
  split
  · exact .pure _
  · exact .pure _
  · exact .pure _
  · exact .bind h.fail fun _ => .pure _

theorem spfSchedule (oa : Nat) (hostnum : UInt32) : Within R (spfSchedule oa hostnum : M ρ Unit) :=
  .bind (h.theArea oa) fun _ => .ite (.pure _) <| .bind (h.event trivial) fun _ => h.area _ fun _ => rfl

theorem intraPrefixLsaScheduleTransit (oi : Nat) : Within R (intraPrefixLsaScheduleTransit oi : M ρ Unit) :=
  .bind (h.theInterface oi) fun _ => .ite (.pure _) <| .bind (h.event trivial) fun _ => h.interface _ fun _ => rfl

theorem routerLsaSchedule (oa : Nat) (hostnum : UInt32) : Within R (routerLsaSchedule oa hostnum : M ρ Unit) :=
  .bind (h.theArea oa) fun _ => .ite (.pure _) <| .bind (h.event trivial) fun _ => h.area _ fun _ => rfl

theorem interfaceLsdbHook (oi : Nat) (a : Addr) : Within R (interfaceLsdbHook oi a : M ρ Unit) := by
  refine .bind (info a) fun l => .ite ?_ (.pure _)
  refine .bind (h.theInterface oi) fun i => .bind (.when (h.intraPrefixLsaScheduleTransit oi)) fun _ => ?_
  exact .bind (h.hostnumOf i) fun _ => h.spfSchedule _ _

theorem hookRemove (db : Lsdb) (a : Addr) : Within R (hookRemove db a : M ρ Unit) := by
  cases db with
  | interface oi => exact h.interfaceLsdbHook oi a
  | area oa => exact .bind (info a) fun _ => .ite (h.spfSchedule _ _) (.pure _)
  | _ => exact .pure _

/-- `ospf6_lsdb_remove`, where the list may be put. -/
theorem lsdbRemove {db : Lsdb} (hput : ∀ as, Within R (db.put as : M ρ Unit)) (a : Addr) :
    Within R (lsdbRemove a db : M ρ Unit) :=
  .bind .observe fun _ => .bind (h.assert _) fun _ => .bind (hput _) fun _ => h.hookRemove db a

variable [RouteCalc ρ]

theorem intraPrefixLsaAdd (oa : Nat) (a : Addr) : Within R (intraPrefixLsaAdd oa a : M ρ Unit) := by
  refine .bind (h.isMaxage a) fun old => .ite (.pure _) ?_
  exact .bind (info a) fun l => .bind .observe fun s => h.routeCalc _

theorem hookAdd (db : Lsdb) (a : Addr) : Within R (hookAdd db a : M ρ Unit) := by
  cases db with
  | interface oi => exact h.interfaceLsdbHook oi a
  | area oa =>
      exact .bind (info a) fun _ => .ite (h.spfSchedule _ _) <| .ite (h.intraPrefixLsaAdd oa a) (.pure _)
  | _ => exact .pure _

theorem hookChange (db : Lsdb) (old a : Addr) : Within R (hookChange db old a : M ρ Unit) :=
  .bind (h.isMaxage a) fun _ => .ite (.bind (h.hookRemove db old) fun _ => h.hookRemove db a) <|
    .bind (h.isMaxage old) fun _ => .ite (h.hookAdd db a) <| .bind (h.hookRemove db old) fun _ => h.hookAdd db a

theorem hookReplace (db : Lsdb) (old a : Addr) : Within R (hookReplace db old a : M ρ Unit) :=
  .bind (h.lsaIsChanged old a) fun _ => .when (h.hookChange db old a)

theorem hookInsert (db : Lsdb) (a : Addr) : Within R (hookInsert db a : M ρ Unit) :=
  .bind (h.isMaxage a) fun _ => .ite (h.hookRemove db a) (h.hookAdd db a)

/-- `ospf6_lsdb_add`, where the list may be put. -/
theorem lsdbAdd {db : Lsdb} (hput : ∀ as, Within R (db.put as : M ρ Unit)) (a : Addr) :
    Within R (lsdbAdd a db : M ρ Unit) := by
  refine .bind .observe fun s => .bind keys fun keyOf => .bind (hput _) fun _ => ?_
  cases (insertLsa keyOf a (db.get s)).2 with
  | none => exact h.hookInsert db a
  | some old => exact h.hookReplace db old a

omit [RouteCalc ρ]

theorem drElection (oi : Nat) : Within R (drElection oi : M ρ InterfaceState) := by
  refine .bind (h.theInterface oi) fun i => .bind .observe fun s => .bind (.when ?_) fun _ => ?_
  · exact .forM fun n _ => .when (h.event trivial)
  · exact .bind (h.interface oi fun _ => rfl) fun _ => .pure _

theorem electState (oi : Nat) : Within R (electState oi : M ρ Unit) :=
  .bind (h.drElection oi) fun _ => h.interface oi fun _ => rfl

theorem waitTimer (oi : Nat) : Within R (waitTimer oi : M ρ Unit) :=
  .bind (h.theInterface oi) fun _ => .ite (h.electState oi) (.pure _)

theorem neighborChange (oi : Nat) : Within R (neighborChange oi : M ρ Unit) :=
  .bind (h.theInterface oi) fun _ => .ite (h.electState oi) (.pure _)

theorem helloSend (oi : Nat) : Within R (helloSend oi : M ρ Unit) := by
  refine .bind (h.interface oi fun _ => rfl) fun _ => .bind (h.theInterface oi) fun i => .ite (.pure _) ?_
  refine .bind (h.other fun s => by split <;> rfl) fun _ => .bind (h.timer trivial) fun _ => ?_
  refine .bind (h.interface oi fun _ => rfl) fun _ => .bind (h.msgSend i _ _) fun _ => h.other fun _ => rfl

end Plain

/-- The lists of what is to be sent, and the LSAs of the router's own. -/
def Lsdb.Plain : Lsdb → Prop
  | .interfaceSelf _ | .interfaceLsupdate _ | .interfaceLsack _ | .areaSelf _ => True
  | .neighbor _ .lsreqList | .neighbor _ .lsupdateList | .neighbor _ .lsackList => True
  | _ => False

/-- A copy of an LSA goes on a list. -/
def copyTo [RouteCalc ρ] (a : Addr) (db : Lsdb) : M ρ Unit := do
  let copy ← lsaCopy a
  lsdbAdd copy db

theorem within_copyTo [RouteCalc ρ] {R : State ρ × Mem → State ρ × Mem → Prop} [Frame R] {α : Type} {a : Addr} {db : Lsdb}
    {m : M ρ α} (h : Within R (copyTo a db : M ρ Unit)) (hm : Within R m) :
    Within R (lsaCopy a >>= fun copy => lsdbAdd copy db >>= fun _ => m) :=
  (Within.bind h fun _ => hm : Within R (copyTo a db >>= fun _ => m))

/-- An LSA goes on the retransmission list of a neighbor. -/
def retransmit [RouteCalc ρ] (a : Addr) (on : NbrRef) : M ρ Unit := do
  incrementRetransCount a
  copyTo a (.neighbor on .retransList)

/-- What flooding and acknowledging do beside the plain steps. -/
structure Floods [RouteCalc ρ] (R : State ρ × Mem → State ρ × Mem → Prop) : Prop extends Plain R where
  queue : ∀ (a : Addr) {db : Lsdb}, db.Plain → Within R (copyTo a db : M ρ Unit)
  unqueue : ∀ (a : Addr) {db : Lsdb}, db.Plain → Within R (lsdbRemove a db : M ρ Unit)
  unrequest : ∀ a on, Within R (lsdbRemove a (.neighbor on .requestList) : M ρ Unit)
  retransmit : ∀ a on, Within R (retransmit a on : M ρ Unit)

namespace Floods

variable [RouteCalc ρ] {R : State ρ × Mem → State ρ × Mem → Prop} [Frame R] (h : Floods R)
include h

/-- A copy goes on a list before something else is done. -/
theorem queue_bind {α : Type} (a : Addr) (db : Lsdb) (hdb : db.Plain) {m : M ρ α} (hm : Within R m) :
    Within R (lsaCopy a >>= fun copy => lsdbAdd copy db >>= fun _ => m) := within_copyTo (h.queue a hdb) hm

theorem examineRequest (a : Addr) (on : NbrRef) : Within R (examineRequest a on : M ρ Bool) := by
  refine .bind (Plain.info a) fun l => .bind (Plain.lsdbLookup _ _) fun req => ?_
  cases req with
  | none => exact .pure _
  | some req =>
      refine .bind (h.lsaCompare a req) fun _ => .ite (.pure _) ?_
      refine .bind (h.lsaCompare a req) fun _ => .ite ?_ ?_
      · exact .bind (h.unrequest req on) fun _ => .pure _
      · exact .bind (h.lsaCompare a req) fun _ => .bind (.when (h.unrequest req on)) fun _ => .pure _

theorem floodNeighbor (sender : Option NbrRef) (a : Addr) (on : NbrRef) :
    Within R (floodNeighbor sender a on : M ρ Bool) := by
  refine .bind (h.theNeighbor on) fun n => .ite (.pure _) ?_
  refine .bind (.ite (h.examineRequest a on) (.pure _)) fun goOn => .ite (.pure _) ?_
  have hrest : Within R (Sibling.retransmit a on >>= fun _ => when (n.threadSendLsupdate.isNone = true) (do
      threadAddTimer (.lsupdateSendNeighbor on)
      modifyNeighbor on fun n => { n with threadSendLsupdate := some (.lsupdateSendNeighbor on) }) >>= fun _ =>
      pure true : M ρ Bool) := by
    refine .bind (h.retransmit a on) fun _ => .bind (.when ?_) fun _ => .pure _
    exact .bind (h.timer trivial) fun _ => h.neighbor on fun _ => rfl
  exact hrest

theorem floodNeighbors (sender : Option NbrRef) (a : Addr) (ons : List NbrRef) (n : Int) :
    Within R (floodNeighbors sender a ons n : M ρ Int) := by
  induction ons generalizing n with
  | nil => exact .pure _
  | cons on ons ih => exact .bind (h.floodNeighbor sender a on) fun _ => ih _

theorem floodInterface (sender : Option NbrRef) (a : Addr) (oi : Nat) :
    Within R (floodInterface sender a oi : M ρ Unit) := by
  refine .bind (h.theInterface oi) fun i => .bind .observe fun s => .bind (h.floodNeighbors _ _ _ _) fun n => ?_
  refine .ite (.pure _) <| .ite (.pure _) <| .ite (.pure _) ?_
  refine h.queue_bind a (.interfaceLsupdate oi) trivial (.when ?_)
  exact .bind (h.event trivial) fun _ => h.interface oi fun _ => rfl

theorem floodArea (sender : Option NbrRef) (a : Addr) (oa : Nat) : Within R (floodArea sender a oa : M ρ Unit) :=
  .bind (Plain.info a) fun _ => .bind (h.theArea oa) fun _ =>
    .forM fun oi _ => .ite (.pure _) (h.floodInterface sender a oi)

theorem flood (sender : Option NbrRef) (a : Addr) : Within R (flood sender a : M ρ Unit) := by
  refine .bind (Plain.info a) fun l => .bind .observe fun s => .forM fun oa _ => .bind (h.theArea oa) fun area => ?_
  exact .ite (.pure _) <| .ite (.pure _) (h.floodArea sender a oa)

theorem acknowledgeDelayed (a : Addr) (oi : Nat) : Within R (acknowledgeDelayed a oi : M ρ Unit) := by
  refine h.queue_bind a (.interfaceLsack oi) trivial ?_
  refine .bind (h.theInterface oi) fun i => .when (.bind (h.timer trivial) fun _ => ?_)
  exact h.interface oi fun _ => rfl

theorem acknowledgeDirect (a : Addr) (sender : NbrRef) : Within R (acknowledgeDirect a sender : M ρ Unit) := by
  refine h.queue_bind a (.neighbor sender .lsackList) trivial ?_
  refine .bind (h.theNeighbor sender) fun n => .when (.bind (h.event trivial) fun _ => ?_)
  exact h.neighbor sender fun _ => rfl

theorem acknowledgeLsa (a : Addr) (ismoreRecent : Int) (sender : NbrRef) :
    Within R (acknowledgeLsa a ismoreRecent sender : M ρ Unit) := by
  refine .bind (h.theInterface sender.oi) fun i => .ite ?_ ?_
  · refine .bind (Plain.info a) fun l => .bind (h.theInterface sender.oi) fun i => .ite (.pure _) ?_
    refine .ite (.ite (h.acknowledgeDelayed _ _) (.pure _)) ?_
    exact .ite (.ite (h.acknowledgeDelayed _ _) (.pure _)) (.ite (h.acknowledgeDirect _ _) (.pure _))
  · refine .bind (Plain.info a) fun l => .ite (.pure _) ?_
    exact .ite (h.acknowledgeDelayed _ _) (.ite (.pure _) (.ite (h.acknowledgeDirect _ _) (.pure _)))

theorem removeFrom {db : Option Lsdb} (hdb : ∀ d ∈ db, d.Plain) (a : Option Addr) :
    Within R (removeFrom db a : M ρ Unit) := by
  cases db with
  | none => exact .pure _
  | some db =>
      cases a with
      | none => exact .pure _
      | some a => exact h.unqueue a (hdb db rfl)

end Floods

/-- A database for LSAs of a type. -/
def Lsdb.Fits (type : UInt16) : Lsdb → Prop
  | .interface _ => lsaScope type = .linklocal
  | .area _ => lsaScope type = .area
  | .as => lsaScope type = .as
  | _ => False

theorem fits_router (oa : Nat) : (Lsdb.area oa).Fits lstypeRouter := (by decide : lsaScope lstypeRouter = .area)

theorem fits_link (oi : Nat) : (Lsdb.interface oi).Fits lstypeLink := (by decide : lsaScope lstypeLink = .linklocal)

theorem fits_intraPrefix (oa : Nat) : (Lsdb.area oa).Fits lstypeIntraPrefix :=
  (by decide : lsaScope lstypeIntraPrefix = .area)

/-- What else the origination of an LSA does: an LSA gets its database, is installed, and ages. -/
structure Originates [RouteCalc ρ] (R : State ρ × Mem → State ρ × Mem → Prop) : Prop extends Floods R where
  tag : ∀ (a : Addr) (d : Lsdb) {f : LsaInfo → LsaInfo}, (∀ l, ((f l).header, (f l).body, (f l).headeronly,
    (f l).retransCount, (f l).lsdb) = (l.header, l.body, l.headeronly, l.retransCount, some d)) →
    ∀ s m, d.Fits (m.lsa a).header.type → R (s, m) ((modifyInfo a f : M ρ Unit) s m).2
  install : ∀ a, Within R (installLsa a : M ρ Unit)
  setAge : ∀ a age, Within R (modifyLsa a fun l => { l with age := age } : M ρ Unit)

namespace Originates

variable [RouteCalc ρ] {R : State ρ × Mem → State ρ × Mem → Prop} [Frame R] (h : Originates R)
include h

omit h [Frame R] [RouteCalc ρ] in
theorem plain_getScopedLsdbSelf (l : LsaInfo) (s : State ρ) (m : Mem) :
    ∀ d ∈ (getScopedLsdbSelf l s m).1, d.Plain := by
  unfold getScopedLsdbSelf
  generalize lsaScope l.header.type = scope
  generalize l.lsdb = lsdb
  intro d hd
  cases scope with
  | linklocal =>
      cases lsdb with
      | none => cases hd
      | some db =>
          cases db with
          | interface oi =>
              obtain rfl := Option.some.inj hd
              trivial
          | _ => cases hd
  | area =>
      cases lsdb with
      | none => cases hd
      | some db =>
          cases db with
          | area oa =>
              obtain rfl := Option.some.inj hd
              trivial
          | _ => cases hd
  | _ => cases hd

theorem lsaPurge (a : Addr) : Within R (lsaPurge a : M ρ Unit) := by
  refine .bind (Plain.info a) fun l => ?_
  refine .bind_of (Q := fun o => ∀ d ∈ o, d.Plain) (h.getScopedLsdbSelf l) (plain_getScopedLsdbSelf l) fun db hdb => ?_
  exact .bind (Plain.lsdbLookup _ _) fun _ => .bind (h.removeFrom hdb _) fun _ => h.setAge a _

theorem purgeOld (old : Option Addr) : Within R (purgeOld old : M ρ Unit) := by
  cases old with
  | none => exact .pure _
  | some old => exact h.lsaPurge old

theorem lsaOriginate (a : Addr) : Within R (lsaOriginate a : M ρ Unit) := by
  refine .bind (Plain.info a) fun l => .bind (Plain.lsdbLookup _ _) fun old =>
    .bind (h.differsFrom old a) fun differs => ?_
  refine .ite ?_ (.pure _)
  refine .bind_of (Q := fun o => ∀ d ∈ o, d.Plain) (h.getScopedLsdbSelf l) (plain_getScopedLsdbSelf l) fun db hdb => ?_
  have hrest : Within R (headerPrint a >>= fun _ => flood none a >>= fun _ => installLsa a : M ρ Unit) :=
    .bind (h.headerPrint a) fun _ => .bind (h.flood none a) fun _ => h.install a
  cases db with
  | none => exact .bind (h.lsaCopy a) fun _ => .bind h.fail fun _ => hrest
  | some db => exact h.queue_bind a db (hdb db rfl) hrest

theorem lsaOriginateIn {db : Lsdb} {type : UInt16} (hdb : db.Fits type) (id hostnum : UInt32) (body : List UInt8) :
    Within R (lsaOriginateIn db type id hostnum body : M ρ Unit) := by
  refine .bind .observe fun s => .bind (Plain.newLsSeqnum _ _) fun seqnum => ?_
  generalize hheader : (LsaHeader.mk type id s.routerId seqnum 0 (UInt16.ofNat (20 + body.length))) = header
  refine fun s m => Frame.trans (h.lsaCreate 0 { header with checksum := lsaChecksum header body } body s m) ?_
  refine Frame.trans (h.tag m.heap.length db (f := fun l => { l with hostnum := hostnum, lsdb := some db }) (fun _ => rfl)
    s _ ?_) (h.lsaOriginate m.heap.length _ _)
  show db.Fits ((m.tick.push (Lsa.born (.ofHeader { header with checksum := lsaChecksum header body } body false) 0
    (m.clock 0))).lsa m.heap.length).header.type
  rw [lsa_push, if_pos (show m.heap.length = m.tick.heap.length from rfl), ← hheader]
  exact hdb

theorem routerLsaInstance (oa : Nat) (hostnum linkStateId : UInt32) (lsdescs : List UInt8) :
    Within R (routerLsaInstance oa hostnum linkStateId lsdescs : M ρ Unit) :=
  .bind .observe fun _ => h.lsaOriginateIn (fits_router oa) _ _ _

theorem routerLsaLoop (oa : Nat) (hostnum : UInt32) (ois : List Nat) (linkStateId : UInt32) (lsdescs : List UInt8) :
    Within R (routerLsaLoop oa hostnum ois linkStateId lsdescs : M ρ (Option (UInt32 × List UInt8))) := by
  induction ois generalizing linkStateId lsdescs with
  | nil => exact .pure _
  | cons oi ois ih =>
      refine .bind (h.theInterface oi) fun i => .bind (h.theArea oa) fun area => .bind .observe fun s => ?_
      refine .ite (ih _ _) <| .ite (.ite (.pure _) ?_) (ih _ _)
      exact .bind (h.routerLsaInstance _ _ _ _) fun _ => ih _ _

theorem purgeRouterLsas (oa : Nat) (linkStateId : UInt32) : Within R (purgeRouterLsas oa linkStateId : M ρ Unit) :=
  .bind .observe fun _ => .bind (Plain.lsdbTypeList _ _) fun _ => .bind Plain.keys fun _ => .forM fun a _ => h.lsaPurge a

theorem routerLsaOriginate (oa : Nat) (hostnum : UInt32) : Within R (routerLsaOriginate oa hostnum : M ρ Unit) := by
  refine .bind (h.area oa fun _ => rfl) fun _ => .bind (h.theArea oa) fun area => ?_
  refine .bind (h.routerLsaLoop oa hostnum area.ifList 0 []) fun last => ?_
  cases last with
  | none => exact .pure _
  | some last =>
      exact .ite (h.purgeRouterLsas _ _) (.bind (h.routerLsaInstance _ _ _ _) fun _ => h.purgeRouterLsas _ _)

theorem linkLsaOriginate (oi : Nat) : Within R (linkLsaOriginate oi : M ρ Unit) := by
  refine .bind (h.interface oi fun _ => rfl) fun _ => .bind (h.theInterface oi) fun i => .bind .observe fun s => ?_
  cases i.linklocalAddr with
  | none => exact .bind (Plain.lsdbLookup _ _) fun old => h.purgeOld old
  | some addr =>
      exact .bind (h.theArea i.area) fun area => h.lsaOriginateIn (fits_link oi) _ _ _

theorem intraPrefixLsaOriginateTransit (oi : Nat) : Within R (intraPrefixLsaOriginateTransit oi : M ρ Unit) := by
  refine .bind (h.interface oi fun _ => rfl) fun _ => .bind (h.theInterface oi) fun i => .bind .observe fun s => .ite ?_ ?_
  · exact .bind (Plain.lsdbLookup _ _) fun old => h.purgeOld old
  · refine .bind (Plain.lsdbTypeList _ _) fun links => .bind (h.withoutMaxage links) fun links => ?_
    refine .bind Plain.infos fun info => ?_
    split
    · exact h.fail
    · exact .pure _
    · exact h.lsaOriginateIn (fits_intraPrefix _) _ _ _

theorem spfCalculation (oa : Nat) (hostnum : UInt32) : Within R (spfCalculation oa hostnum : M ρ Unit) := by
  refine .bind (h.area oa fun _ => rfl) fun _ => .bind (Plain.lsdbList _) fun as => .bind (h.maxageTests as) fun lsas => ?_
  exact .bind .observe fun s => .bind Plain.infos fun info => h.routeCalc _

end Originates

/-! ### Reception -/

/-- What else the reception of LSAs and the sending of them does. -/
structure Receives [RouteCalc ρ] (R : State ρ × Mem → State ρ × Mem → Prop) : Prop extends Originates R where
  badLsreq : ∀ on, Within R (threadAddEvent (.badLsreq on) : M ρ Unit)
  acked : ∀ a on, Within R (lsdbRemove a (.neighbor on .retransList) : M ρ Unit)
  off : ∀ t, Within R (threadOff t : M ρ Unit)

variable {m : Mem} {raw : RawLsa} {hostnum : UInt32}

/-- The heap with an LSA as `ospf6_receive_lsa` creates it. -/
def receiveMem (m : Mem) (raw : RawLsa) (hostnum : UInt32) : Mem :=
  (m.tick.push (Lsa.born (.ofHeader raw.header raw.body false) raw.age (m.clock 0))).update m.heap.length fun l =>
    { l with hostnum }

theorem length_receiveMem : (receiveMem m raw hostnum).heap.length = m.heap.length + 1 := by
  simp [receiveMem, Mem.update, Mem.push, Mem.tick]

theorem receiveMem_lsa : (receiveMem m raw hostnum).lsa m.heap.length =
    { Lsa.born (.ofHeader raw.header raw.body false) raw.age (m.clock 0) with hostnum } :=
  (push_update_self m.tick _ _).1

/-- Steps (5) to (8) of `ospf6_receive_lsa`. -/
def receiveFrom5 [RouteCalc ρ] (sender : NbrRef) (raw : RawLsa) (new : Addr) (lsdb : Option Lsdb) : M ρ Unit := do
  let old ← lsdbLookup raw.header.key lsdb
  match old with
  | none => receiveNewer sender new none
  | some old => do
      let ismoreRecent ← lsaCompare new old
      let o ← info old
      when (raw.header.seqnum = o.header.seqnum) (modifyInfo new fun l => { l with duplicate := true })
      if ismoreRecent < 0 then receiveNewer sender new (some old)
      else receiveOlder sender new old ismoreRecent

namespace Receives

variable [RouteCalc ρ] {R : State ρ × Mem → State ρ × Mem → Prop} [Frame R] (h : Receives R)
include h

theorem arrivedEarly (old : Option Addr) : Within R (arrivedEarly old : M ρ Bool) := by
  cases old with
  | none => exact .pure _
  | some old => exact .bind h.gettime fun now => Plain.read _

theorem impliedAck (sender : NbrRef) (new : Addr) (rem : Option Addr) :
    Within R (impliedAck sender new rem : M ρ Unit) := by
  cases rem with
  | none => exact .pure _
  | some rem =>
      refine .bind (h.flag new fun _ => rfl) fun _ => .bind (Plain.decrementRetransCount rem) fun _ => ?_
      exact h.acked rem sender

theorem receiveNewer (sender : NbrRef) (new : Addr) (old : Option Addr) :
    Within R (receiveNewer sender new old : M ρ Unit) := by
  refine .bind (h.arrivedEarly old) fun early => .ite (.pure _) <| .bind (Plain.info new) fun l =>
    .bind .observe fun s => ?_
  exact .bind (.when (h.flood _ new)) fun _ => .bind (h.install new) fun _ => h.acknowledgeLsa new _ sender

theorem receiveOlder (sender : NbrRef) (new old : Addr) (ismoreRecent : Int) :
    Within R (receiveOlder sender new old ismoreRecent : M ρ Unit) := by
  refine .bind (Plain.info new) fun l => .bind (Plain.lsdbLookup _ _) fun req => .ite (h.badLsreq sender) ?_
  refine .ite ?_ (.bind (h.isMaxage old) fun _ => .bind (Plain.info old) fun o => .ite (.pure _) ?_)
  · refine .bind (Plain.lsdbLookup _ _) fun rem => .bind (h.impliedAck sender new rem) fun _ => ?_
    exact h.acknowledgeLsa new ismoreRecent sender
  · refine h.queue_bind old (.neighbor sender .lsupdateList) trivial ?_
    refine .bind (h.theNeighbor sender) fun n => .when (.bind (h.event trivial) fun _ => ?_)
    exact h.neighbor sender fun _ => rfl

omit h [Frame R] [RouteCalc ρ] in
/-- The database that an LSA is for suits its type. -/
theorem fits_receiveLsdb (sender : NbrRef) (type : UInt16) (s : State ρ) (m : Mem) :
    ∀ d ∈ (receiveLsdb sender type s m).1, d.Fits type := by
  intro d hd
  unfold receiveLsdb at hd
  generalize hscope : lsaScope type = scope at hd
  cases scope with
  | linklocal =>
      obtain rfl := Option.some.inj hd
      exact hscope
  | area =>
      obtain rfl := Option.some.inj hd
      exact hscope
  | as =>
      obtain rfl := Option.some.inj hd
      exact hscope
  | reserved => cases hd

omit h [Frame R] [RouteCalc ρ] in
theorem receiveLsdb_mem (sender : NbrRef) (type : UInt16) (s : State ρ) (m : Mem) :
    (receiveLsdb sender type s m).2.2 = m := by
  have hinterface : (theInterface sender.oi s m).2.2 = m := by
    unfold theInterface
    cases hoi : s.interfaces[sender.oi]? with
    | none => simp only [bind, observe, hoi]; rfl
    | some i => simp only [bind, observe, hoi]; rfl
  unfold receiveLsdb
  generalize lsaScope type = scope
  cases scope with
  | _ => exact hinterface

theorem receiveLsdb (sender : NbrRef) (type : UInt16) : Within R (receiveLsdb sender type : M ρ (Option Lsdb)) := by
  refine .bind (h.theInterface sender.oi) fun i => ?_
  generalize lsaScope type = scope
  cases scope with
  | _ => exact .pure _

theorem receiveFrom5 (sender : NbrRef) (raw : RawLsa) (new : Addr) (db : Option Lsdb) :
    Within R (Sibling.receiveFrom5 sender raw new db : M ρ Unit) := by
  refine .bind (Plain.lsdbLookup _ _) fun old => ?_
  cases old with
  | none => exact h.receiveNewer sender new none
  | some old =>
      refine .bind (h.lsaCompare new old) fun _ => .bind (Plain.info old) fun o => .bind (.when ?_) fun _ => ?_
      · exact h.flag new fun _ => rfl
      · exact .ite (h.receiveNewer _ _ _) (h.receiveOlder _ _ _ _)

theorem receiveLsa (sender : NbrRef) (hostnum : UInt32) (raw : RawLsa) :
    Within R (receiveLsa sender hostnum raw : M ρ Unit) := by
  intro s m
  have hcreated : R (s, m) (s, receiveMem m raw hostnum) :=
    Frame.trans (h.lsaCreate raw.age raw.header raw.body s m) (h.flag m.heap.length
      (f := fun l => { l with hostnum := hostnum }) (fun _ => rfl) s _)
  refine Frame.trans hcreated ?_
  let rest : Option Lsdb → M ρ Unit := fun lsdb =>
    if lsdb.isNone then pure ()
    else do
      modifyInfo m.heap.length fun l => { l with lsdb := lsdb }
      let drop ← isMaxageLsaDrop m.heap.length
      if drop then pure () else Sibling.receiveFrom5 sender raw m.heap.length lsdb
  have hrun : Sibling.receiveLsa sender hostnum raw s m =
      (if lsaChecksum raw.header raw.body ≠ raw.header.checksum then pure ()
        else Sibling.receiveLsdb sender raw.header.type >>= rest : M ρ Unit) s (receiveMem m raw hostnum) := rfl
  rw [hrun]
  by_cases hsum : lsaChecksum raw.header raw.body = raw.header.checksum
  swap
  · rw [if_pos hsum]
    exact Frame.refl _
  rw [if_neg (not_not_intro hsum)]
  -- the LSA gets the database that suits its type
  have hdb := h.receiveLsdb sender raw.header.type s (receiveMem m raw hostnum)
  have hmem := receiveLsdb_mem sender raw.header.type s (receiveMem m raw hostnum)
  have hfits := fits_receiveLsdb sender raw.header.type s (receiveMem m raw hostnum)
  refine Frame.trans hdb ?_
  show R _ (rest (Sibling.receiveLsdb sender raw.header.type s (receiveMem m raw hostnum)).1 _ _).2
  generalize Sibling.receiveLsdb sender raw.header.type s (receiveMem m raw hostnum) = r at hmem hfits ⊢
  obtain ⟨db, s', m'⟩ := r
  obtain rfl : m' = receiveMem m raw hostnum := hmem
  cases db with
  | none => exact Frame.refl _
  | some d =>
      have htype : d.Fits ((receiveMem m raw hostnum).lsa m.heap.length).header.type := by
        rw [receiveMem_lsa]
        exact hfits d rfl
      refine Frame.trans (h.tag m.heap.length d (f := fun l => { l with lsdb := some d }) (fun _ => rfl) s' _ htype) ?_
      have hrest : Within R (do
          let drop ← isMaxageLsaDrop m.heap.length
          if drop then pure () else Sibling.receiveFrom5 sender raw m.heap.length (some d) : M ρ Unit) :=
        .bind (h.isMaxageLsaDrop _) fun _ => .ite (.pure _) (h.receiveFrom5 _ _ _ _)
      exact hrest s' _

theorem lsupdateRecv (oi : Nat) (frame : List UInt8) : Within R (lsupdateRecv oi frame : M ρ Unit) := by
  refine .bind (h.theInterface oi) fun i => ?_
  dsimp only
  cases i.neighborLookup (u32At frame 4) with
  | none => exact .pure _
  | some n =>
      refine .ite (.pure _) <| .bind (h.assert _) fun _ => .bind (h.hostnumOf i) fun hostnum => ?_
      refine .bind (.forM fun raw _ => h.receiveLsa _ _ raw) fun _ => .bind (h.assert _) fun _ => ?_
      refine .bind (h.theNeighbor _) fun n => .ite (.bind (h.off _) fun _ => ?_) (.pure _)
      exact .bind (h.event trivial) fun _ => h.neighbor _ fun _ => rfl

theorem lsreqLoop (on : NbrRef) (keys : List LsaKey) (lsdb : Option Lsdb) :
    Within R (lsreqLoop on lsdb keys : M ρ Bool) := by
  induction keys generalizing lsdb with
  | nil => exact .pure _
  | cons key keys ih =>
      refine .ite (ih lsdb) (.bind (Plain.lsdbLookup _ _) fun found => ?_)
      cases found with
      | none => exact .bind (h.badLsreq on) fun _ => .pure _
      | some a => exact h.queue_bind a (.neighbor on .lsupdateList) trivial (ih _)

theorem lsreqRecv (oi : Nat) (frame : List UInt8) : Within R (lsreqRecv oi frame : M ρ Unit) := by
  refine .bind (h.theInterface oi) fun i => .ite (.pure _) (.bind (h.lsreqLoop _ _ _) fun atEnd => .ite ?_ (.pure _))
  refine .bind (h.assert _) fun _ => .bind (h.theNeighbor _) fun n => .bind (h.off _) fun _ => ?_
  exact .bind (h.event trivial) fun _ => h.neighbor _ fun _ => rfl

theorem ageUpdateToSend (a : Addr) (transdelay : UInt32) : Within R (ageUpdateToSend a transdelay : M ρ UInt16) :=
  .bind (h.ageCurrent a) fun _ => .bind (h.setAge a _) fun _ => .pure _

omit [Frame R] in
theorem clearAge (a : Addr) : Within R (clearAge a : M ρ Unit) := h.setAge a 0

theorem lsupdateOnce (on : NbrRef) (ifmtu : UInt32) (as : List Addr) (b : Obuf) :
    Within R (lsupdateOnce on ifmtu b as : M ρ Part) := by
  induction as generalizing b with
  | nil => exact .pure _
  | cons a as ih =>
      refine .bind (Plain.info a) fun l => .bind (Plain.mtuCheck _ _ _) fun full => .ite (.pure _) ?_
      refine .bind (h.clearAge a) fun _ => ?_
      exact .bind (h.unqueue a trivial) fun _ => .bind (ih _) fun _ => .pure _

theorem lsupdateRetrans (ifmtu : UInt32) (transdelay : UInt32) (as : List Addr) (b : Obuf) :
    Within R (lsupdateRetrans ifmtu transdelay b as : M ρ Part) := by
  induction as generalizing b with
  | nil => exact .pure _
  | cons a as ih =>
      refine .bind (Plain.info a) fun l => .bind (Plain.mtuCheck _ _ _) fun full => .ite (.pure _) ?_
      exact .bind (h.ageUpdateToSend a _) fun _ => .bind (ih _) fun _ => .pure _

theorem lsupdateAgain (on : NbrRef) : Within R (lsupdateAgain on : M ρ Unit) := by
  refine .bind (h.theNeighbor on) fun n => .ite ?_ (.ite ?_ (.pure _))
  · exact .bind (h.event trivial) fun _ => h.neighbor on fun _ => rfl
  · exact .bind (h.timer trivial) fun _ => h.neighbor on fun _ => rfl

theorem lsupdateSendNeighbor (on : NbrRef) : Within R (lsupdateSendNeighbor on : M ρ Unit) := by
  refine .bind (h.theNeighbor on) fun n => .bind (h.theInterface on.oi) fun i =>
    .bind (h.neighbor on fun _ => rfl) fun _ => ?_
  refine .ite (.pure _) <| .ite (.pure _) <| .bind (h.lsupdateOnce on _ _ _) fun once => ?_
  refine .bind (h.lsupdateRetrans _ _ _ _) fun retrans => .bind (h.rfpbufAtAssert _ _ _) fun _ => ?_
  exact .bind (h.rfpbufAtAssert _ _ _) fun _ => .bind (h.msgSend i _ _) fun _ => h.lsupdateAgain on

theorem lsackHeaders (db : Lsdb) (hdb : db.Plain) (ifmtu : UInt32) (transdelay : UInt32) (as : List Addr) (b : Obuf) :
    Within R (lsackHeaders db ifmtu transdelay b as : M ρ (Part × Bool)) := by
  induction as generalizing b with
  | nil => exact .pure _
  | cons a as ih =>
      refine .bind (Plain.mtuCheck _ _ _) fun full => .ite (.pure _) ?_
      refine .bind (h.ageUpdateToSend a _) fun _ => .bind (Plain.info a) fun l => ?_
      exact .bind (h.unqueue a hdb) fun _ => .bind (ih _) fun _ => .pure _

theorem lsackSendNeighbor (on : NbrRef) : Within R (lsackSendNeighbor on : M ρ Unit) := by
  refine .bind (h.theNeighbor on) fun n => .bind (h.theInterface on.oi) fun i =>
    .bind (h.neighbor on fun _ => rfl) fun _ => ?_
  refine .ite (.pure _) <| .ite (.pure _) <|
    .bind (h.lsackHeaders (.neighbor on .lsackList) trivial _ _ _ _) fun acks => ?_
  refine .bind (.when (.bind (h.event trivial) fun _ => h.neighbor on fun _ => rfl)) fun _ => ?_
  exact .bind (h.rfpbufAtAssert _ _ _) fun _ => h.msgSend i _ _

theorem lsackSendInterface (oi : Nat) : Within R (lsackSendInterface oi : M ρ Unit) := by
  refine .bind (h.theInterface oi) fun i => .bind (h.interface oi fun _ => rfl) fun _ =>
    .ite (.pure _) <| .ite (.pure _) ?_
  refine .bind (h.lsackHeaders (.interfaceLsack oi) trivial _ _ _ _) fun acks => ?_
  refine .bind (.when (.bind (h.event trivial) fun _ => h.interface oi fun _ => rfl)) fun _ => ?_
  refine .bind (h.rfpbufAtAssert _ _ _) fun _ => .bind (h.msgSend i _ _) fun _ => .bind (h.theInterface oi) fun i => ?_
  exact .when (.bind (h.event trivial) fun _ => h.interface oi fun _ => rfl)

end Receives

/-- What of a neighbor the numbers and bits of the DbDescs have no part in. -/
def Neighbor.lists (n : Neighbor) : NeighborState × (NbrList → List Addr) := (n.state, n.list)

/-- The events that lead to a DbDesc or to a new negotiation. -/
def Thread.Negotiates : Thread → Prop
  | .dbdescSend _ | .dbdescSendNewone _ | .seqnumberMismatch _ => True
  | _ => False

/-- The events that lead on through the exchange of databases. -/
def Thread.Advances : Thread → Prop
  | .dbdescSendNewone _ | .lsreqSend _ | .exchangeDone _ | .loadingDone _ => True
  | _ => False

/-- What is pending for a neighbor that has been freed. -/
def dangle (on : NbrRef) (t : Thread) : Thread := if t.neighbor = some on then .dangling else t

/-- A neighbor leaves the list, and nothing points to it any more. -/
def forgetNeighbor (on : NbrRef) : M ρ Unit := do
  modifyInterface on.oi fun i => { i with
    neighborList := i.neighborList.eraseP fun n => n.routerId == on.routerId }
  modify fun s => { s with events := s.events.map (dangle on), timers := s.timers.map (dangle on) }

/-- What else happens on the way to an adjacency, up to the exchange of databases, and on the way back. -/
structure Adjoins [RouteCalc ρ] (R : State ρ × Mem → State ρ × Mem → Prop) : Prop extends Receives R where
  lower : ∀ {st : NeighborState} on, st < .exchange →
    Within R (modifyNeighbor on fun n => { n with state := st } : M ρ Unit)
  dbdesc : ∀ (on : NbrRef) {f : Neighbor → Neighbor}, (∀ n, ((f n).routerId, (f n).lists) = (n.routerId, n.lists)) →
    Within R (modifyNeighbor on f : M ρ Unit)
  negotiate : ∀ {t : Thread}, t.Negotiates → Within R (threadAddEvent t : M ρ Unit)
  dbdescTimer : ∀ on, Within R (threadAddTimer (.dbdescSend on) : M ρ Unit)
  summarized : ∀ a on, Within R (lsdbRemove a (.neighbor on .summaryList) : M ρ Unit)
  described : ∀ a on, Within R (lsdbRemove a (.neighbor on .dbdescList) : M ρ Unit)
  meet : ∀ oi frame s m, (s.interfaceAt oi).neighborLookup (u32At frame 4) = none →
    R (s, m) ((modifyInterface oi fun i => { i with neighborList := i.neighborList ++ [Neighbor.met frame] } : M ρ Unit)
      s m).2
  forget : ∀ on, Within R (forgetNeighbor on : M ρ Unit)

namespace Adjoins

variable [RouteCalc ρ] {R : State ρ × Mem → State ρ × Mem → Prop} [Frame R] (h : Adjoins R)
include h

/-- `ospf6_neighbor_state_change`, where the state may be set. -/
theorem stateChange {st : NeighborState} {on : NbrRef}
    (hst : Within R (modifyNeighbor on fun n => { n with state := st } : M ρ Unit)) :
    Within R (neighborStateChange st on : M ρ Unit) := by
  refine .bind (h.theNeighbor on) fun n => .bind hst fun _ => .ite (.pure _) <| .ite ?_ (.pure _)
  refine .bind (h.theInterface on.oi) fun i => .bind (h.hostnumOf i) fun hostnum => ?_
  exact .bind (h.routerLsaSchedule _ _) fun _ => .when (h.intraPrefixLsaScheduleTransit on.oi)

theorem neighborStateChange {st : NeighborState} (on : NbrRef) (hst : st < .exchange) :
    Within R (neighborStateChange st on : M ρ Unit) := h.stateChange (h.lower on hst)

theorem rescheduleDbdesc (on : NbrRef) {t : Thread} (ht : t.Negotiates) :
    Within R (rescheduleDbdesc on t : M ρ Unit) :=
  .bind (h.theNeighbor on) fun _ => .bind (h.off _) fun _ => .bind (h.negotiate ht) fun _ => h.dbdesc on fun _ => rfl

theorem helloReceived (on : NbrRef) : Within R (helloReceived on : M ρ Unit) := by
  refine .bind (h.theNeighbor on) fun n => .bind (h.off _) fun _ => .bind (h.timer trivial) fun _ => ?_
  refine .bind (h.neighbor on fun _ => rfl) fun _ => .ite (h.neighborStateChange on ?_) (.pure _)
  decide

omit [Frame R] in
theorem setNegotiationBits (on : NbrRef) : Within R (setNegotiationBits on : M ρ Unit) := h.dbdesc on fun _ => rfl

theorem twowayReceived (on : NbrRef) : Within R (twowayReceived on : M ρ Unit) := by
  refine .bind (h.theNeighbor on) fun n => .ite (.pure _) <| .bind (h.event trivial) fun _ => ?_
  refine .bind (h.theInterface on.oi) fun i => .ite (h.neighborStateChange on (by decide)) ?_
  refine .bind (h.neighborStateChange on (by decide)) fun _ => .bind (h.setNegotiationBits on) fun _ => ?_
  exact h.rescheduleDbdesc on trivial

theorem adjOk (on : NbrRef) : Within R (adjOk on : M ρ Unit) :=
  .bind (h.theNeighbor on) fun _ => .bind (h.theInterface on.oi) fun _ =>
    .ite (h.neighborStateChange on (by decide)) (.pure _)

theorem onewayReceived (on : NbrRef) : Within R (onewayReceived on : M ρ Unit) :=
  .bind (h.theNeighbor on) fun _ => .ite (.pure _) <| .bind (h.neighborStateChange on (by decide)) fun _ =>
    h.event trivial

theorem clearRetransList (on : NbrRef) : Within R (clearRetransList on : M ρ Unit) :=
  .bind (Plain.lsdbList _) fun _ => .forM fun a _ => .bind (Plain.decrementRetransCount a) fun _ => h.acked a on

theorem renegotiate (on : NbrRef) : Within R (renegotiate on : M ρ Unit) := by
  refine .bind (h.theNeighbor on) fun n => .ite (.pure _) <| .bind (h.neighborStateChange on (by decide)) fun _ => ?_
  refine .bind (h.setNegotiationBits on) fun _ => .bind (Plain.removeAll fun a => h.summarized a on) fun _ => ?_
  refine .bind (Plain.removeAll fun a => h.unrequest a on) fun _ => .bind (h.clearRetransList on) fun _ => ?_
  exact h.rescheduleDbdesc on trivial

theorem neighborDelete (on : NbrRef) : Within R (neighborDelete on : M ρ Unit) := by
  refine .bind (Plain.removeAll fun a => h.summarized a on) fun _ =>
    .bind (Plain.removeAll fun a => h.unrequest a on) fun _ => ?_
  refine .bind (h.clearRetransList on) fun _ => .bind (Plain.removeAll fun a => h.described a on) fun _ => ?_
  have hqueue : ∀ list, (Lsdb.neighbor on list).Plain → Within R (lsdbRemoveAll (.neighbor on list) : M ρ Unit) :=
    fun list hlist => Plain.removeAll fun a => h.unqueue a hlist
  refine .bind (hqueue .lsreqList trivial) fun _ => .bind (hqueue .lsupdateList trivial) fun _ => ?_
  refine .bind (hqueue .lsackList trivial) fun _ => .bind (h.theNeighbor on) fun n => .bind (h.off _) fun _ => ?_
  exact .bind (h.off _) fun _ => .bind (h.off _) fun _ => .bind (h.off _) fun _ => .bind (h.off _) fun _ => h.forget on

theorem inactivityTimer (on : NbrRef) : Within R (inactivityTimer on : M ρ Unit) := by
  refine .bind (h.neighbor on fun _ => rfl) fun _ => .bind (h.neighborStateChange on (by decide)) fun _ => ?_
  exact .bind (h.event trivial) fun _ => h.neighborDelete on

omit [Frame R] in
theorem setSeqnum (on : NbrRef) (seqnum : UInt32) :
    Within R (modifyNeighbor on fun n => { n with dbdescSeqnum := seqnum } : M ρ Unit) := h.dbdesc on fun _ => rfl

theorem dbdescHeaders (ifmtu : UInt32) (as : List Addr) (b : Obuf) :
    Within R (dbdescHeaders ifmtu b as : M ρ Part) := by
  induction as generalizing b with
  | nil => exact .pure _
  | cons a as ih =>
      refine .bind (h.clearAge a) fun _ => .bind (Plain.mtuCheck _ _ _) fun full => .ite (.pure _) ?_
      exact .bind (Plain.info a) fun _ => .bind (ih _) fun _ => .pure _

theorem dbdescSend (on : NbrRef) : Within R (dbdescSend on : M ρ Unit) := by
  refine .bind (h.theNeighbor on) fun n => .bind (h.theInterface on.oi) fun i => ?_
  refine .bind (h.dbdesc on fun _ => rfl) fun _ => .ite (.pure _) ?_
  refine .bind (.when (.bind (h.dbdescTimer on) fun _ => h.dbdesc on fun _ => rfl)) fun _ => ?_
  refine .bind (h.theArea i.area) fun area => .ite ?_ ?_
  · refine .bind h.gettime fun tv => .bind (h.dbdesc on fun _ => rfl) fun _ => ?_
    exact .bind (h.rfpbufAtAssert _ _ _) fun _ => h.msgSend i _ _
  · exact .bind (h.dbdescHeaders _ _ _) fun _ => .bind (h.rfpbufAtAssert _ _ _) fun _ => h.msgSend i _ _

/-- `ospf6_lsreq_send`, with what it does where nothing is left to request. -/
theorem lsreqSend {on : NbrRef} (hdone : Within R (threadAddEvent (.loadingDone on) : M ρ Unit)) :
    Within R (lsreqSend on : M ρ Unit) := by
  refine .bind (h.theInterface on.oi) fun i => .bind (h.neighbor on fun _ => rfl) fun _ => ?_
  refine .bind (h.theNeighbor on) fun n => .ite (.pure _) <| .ite hdone ?_
  refine .bind (h.timer trivial) fun _ => .bind (h.neighbor on fun _ => rfl) fun _ => ?_
  refine .bind (Plain.lsreqEntries _ _ _) fun _ => ?_
  exact .bind (h.rfpbufAtAssert _ _ _) fun _ => h.msgSend i _ _

theorem moveSummary {on : NbrRef} (hdescribe : ∀ a, Within R (copyTo a (.neighbor on .dbdescList) : M ρ Unit))
    (ifmtu : Nat) (as : List Addr) (size : Nat) : Within R (moveSummary on ifmtu size as : M ρ Unit) := by
  induction as generalizing size with
  | nil => exact .pure _
  | cons a as ih => exact .ite (.pure _) (within_copyTo (hdescribe a) (.bind (h.summarized a on) fun _ => ih _))

theorem dbdescSendNewone {on : NbrRef} (hdescribe : ∀ a, Within R (copyTo a (.neighbor on .dbdescList) : M ρ Unit))
    (hdone : Within R (threadAddEvent (.exchangeDone on) : M ρ Unit)) :
    Within R (dbdescSendNewone on : M ρ Unit) := by
  refine .bind (Plain.lsdbList _) fun as => .bind (Plain.removeAll fun a => h.described a on) fun _ => ?_
  refine .bind (h.theInterface on.oi) fun i => .bind (h.moveSummary hdescribe _ as _) fun _ => ?_
  refine .bind (h.theNeighbor on) fun n => .bind (.when (h.dbdesc on fun _ => rfl)) fun _ => ?_
  exact .bind (h.theNeighbor on) fun n => .bind (.when hdone) fun _ => h.dbdescSend on

theorem negotiationDone {on : NbrRef} (hsummarize : ∀ a, Within R (summarize on a : M ρ Unit))
    (hraise : Within R (modifyNeighbor on fun n => { n with state := .exchange } : M ρ Unit)) :
    Within R (negotiationDone on : M ρ Unit) := by
  refine .bind (h.theNeighbor on) fun n => .ite (.pure _) ?_
  refine .bind (Plain.removeAll fun a => h.summarized a on) fun _ =>
    .bind (Plain.removeAll fun a => h.unrequest a on) fun _ => ?_
  refine .bind (h.clearRetransList on) fun _ => .bind (Plain.lsdbList _) fun link => ?_
  refine .bind (.forM fun a _ => hsummarize a) fun _ => .bind (Plain.lsdbList _) fun external => ?_
  refine .bind (.forM fun a _ => hsummarize a) fun _ => .bind (h.dbdesc on fun _ => rfl) fun _ => ?_
  exact h.stateChange hraise

theorem dbdescAccept {on : NbrRef} {frame : List UInt8}
    (hrecv : ∀ off ∈ entriesInside frame 28 20, Within R (dbdescHeaderRecv on frame off : M ρ Unit)) :
    Within R (dbdescAccept on frame : M ρ Unit) := by
  refine .bind (.forM hrecv) fun _ => .bind (h.assert _) fun _ => ?_
  refine .bind (h.setSeqnum on _) fun _ => .bind (h.theNeighbor on) fun n => .bind (.when ?_) fun _ => ?_
  · exact .bind (h.event trivial) fun _ => h.neighbor on fun _ => rfl
  · exact .bind (h.rescheduleDbdesc on trivial) fun _ => h.dbdesc on fun _ => rfl

omit h [Frame R] [RouteCalc ρ] in
theorem theInterface_at (oi : Nat) (s : State ρ) (m : Mem) :
    ∃ b, theInterface oi s m = (s.interfaceAt oi, { s with fault := b }, m) := by
  unfold Sibling.theInterface State.interfaceAt
  rw [List.getD_eq_getElem?_getD]
  cases hoi : s.interfaces[oi]? with
  | none =>
      refine ⟨true, ?_⟩
      simp only [bind, observe, hoi]
      rfl
  | some i =>
      refine ⟨s.fault, ?_⟩
      simp only [bind, observe, hoi]
      rfl

omit h [Frame R] [RouteCalc ρ] in
theorem assert_at (c : Bool) (s : State ρ) (m : Mem) : ∃ b, assert c s m = ((), { s with fault := b }, m) := by
  cases c with
  | false => exact ⟨true, rfl⟩
  | true => exact ⟨s.fault, rfl⟩

omit h [Frame R] [RouteCalc ρ] in
/-- The steps of `Neighbor.hear`, for any values in the Hello. -/
theorem exchange_heard (n : Neighbor) (ifindex router : UInt32) (priority : UInt8) :
    { n with ifindex := ifindex, priority := priority }.exchange = n.exchange ∧
      (if n.drouter = router then n else { n with prevDrouter := n.drouter, drouter := router }).exchange = n.exchange ∧
      (if n.bdrouter = router then n else { n with prevBdrouter := n.bdrouter, bdrouter := router }).exchange =
        n.exchange := by
  refine ⟨rfl, ?_, ?_⟩
  · split_ifs <;> rfl
  · split_ifs <;> rfl

omit h [Frame R] [RouteCalc ρ] in
theorem hear_exchange (frame : List UInt8) (n : Neighbor) :
    ((n.hear frame).routerId, (n.hear frame).exchange) = (n.routerId, n.exchange) := by
  have hid : (n.hear frame).routerId = n.routerId := by
    simp only [Neighbor.hear]
    split_ifs <;> rfl
  have hexchange : (n.hear frame).exchange = n.exchange := by
    unfold Neighbor.hear
    exact (exchange_heard _ 0 _ 0).2.2.trans ((exchange_heard _ 0 _ 0).2.1.trans (exchange_heard n _ 0 _).1)
  rw [hid, hexchange]

/-- What a Hello does once its neighbor is known. -/
theorem helloRecv_met (oi : Nat) (xid : UInt32) (frame : List UInt8) (on : NbrRef) (i : Interface) : Within R (do
    let n ← theNeighbor on
    let s ← observe
    modifyNeighbor on (Neighbor.hear frame)
    Sibling.helloReceived on
    (if (entriesInside frame 36 4).any (fun off => u32At frame off == s.routerId) then Sibling.twowayReceived on
      else Sibling.onewayReceived on)
    when (n.changedBy frame = true) (threadAddEvent (.neighborChange oi))
    ackSend i xid : M ρ Unit) := by
  refine .bind (h.theNeighbor on) fun n => .bind .observe fun s => .bind (h.neighbor on (hear_exchange frame)) fun _ => ?_
  refine .bind (h.helloReceived on) fun _ => .bind (.ite (h.twowayReceived on) (h.onewayReceived on)) fun _ => ?_
  exact .bind (.when (h.event trivial)) fun _ => h.ackSend i xid

theorem helloRecv (oi : Nat) (xid : UInt32) (frame : List UInt8) : Within R (helloRecv oi xid frame : M ρ Unit) := by
  intro s m
  obtain ⟨b, hi⟩ := theInterface_at oi s m
  have hread := h.theInterface oi s m
  rw [hi] at hread
  unfold Sibling.helloRecv
  rw [run_bind hi]
  refine Frame.trans hread ?_
  obtain ⟨b', hassert⟩ := assert_at (decide (26 ≤ frame.length)) { s with fault := b } m
  have hlength := h.assert (decide (26 ≤ frame.length)) { s with fault := b } m
  rw [hassert] at hlength
  rw [run_bind hassert]
  refine Frame.trans hlength ?_
  by_cases hinterval : u16At frame 24 ≠ (s.interfaceAt oi).helloInterval
  · rw [if_pos hinterval]
    exact Frame.refl _
  rw [if_neg hinterval]
  obtain ⟨b'', hentries⟩ := assert_at (decide (36 ≤ frame.length) && entriesFit frame 36 4) { s with fault := b' } m
  have hfit := h.assert (decide (36 ≤ frame.length) && entriesFit frame 36 4) { s with fault := b' } m
  rw [hentries] at hfit
  rw [run_bind hentries]
  refine Frame.trans hfit ?_
  have hmeet : R ({ s with fault := b'' }, m) ((when (((s.interfaceAt oi).neighborLookup (u32At frame 4)).isNone = true)
      (modifyInterface oi fun i => { i with neighborList := i.neighborList ++ [Neighbor.met frame] }) : M ρ Unit)
      { s with fault := b'' } m).2 := by
    by_cases hnone : ((s.interfaceAt oi).neighborLookup (u32At frame 4)).isNone = true
    · rw [when, if_pos hnone]
      exact h.meet oi frame _ m (Option.isNone_iff_eq_none.mp hnone)
    · rw [when, if_neg hnone]
      exact Frame.refl _
  exact Frame.trans hmeet (h.helloRecv_met oi xid frame ⟨oi, u32At frame 4⟩ (s.interfaceAt oi) _ _)

/-- A thread other than those that lead on through the exchange of databases. -/
theorem runThread {t : Thread} (ht : t.Advances → Within R (Sibling.runThread t : M ρ Unit)) :
    Within R (Sibling.runThread t : M ρ Unit) := by
  cases t with
  | helloSend oi => exact h.helloSend oi
  | dbdescSend on => exact h.dbdescSend on
  | dbdescSendNewone on => exact ht trivial
  | lsreqSend on => exact ht trivial
  | lsupdateSendNeighbor on => exact h.lsupdateSendNeighbor on
  | lsupdateSendInterface oi => exact .pure _
  | lsackSendNeighbor on => exact h.lsackSendNeighbor on
  | lsackSendInterface oi => exact h.lsackSendInterface oi
  | inactivityTimer on => exact h.inactivityTimer on
  | exchangeDone on => exact ht trivial
  | loadingDone on => exact ht trivial
  | adjOk on => exact h.adjOk on
  | seqnumberMismatch on => exact h.renegotiate on
  | badLsreq on => exact h.renegotiate on
  | neighborChange oi => exact h.neighborChange oi
  | waitTimer oi => exact h.waitTimer oi
  | routerLsaOriginate oa hostnum => exact h.routerLsaOriginate oa hostnum
  | linkLsaOriginate oi => exact h.linkLsaOriginate oi
  | intraPrefixLsaOriginateTransit oi => exact h.intraPrefixLsaOriginateTransit oi
  | spfCalculation oa hostnum => exact h.spfCalculation oa hostnum
  | dangling => exact h.fail

/-- A packet, where the DbDescs are known to stay within the frame. -/
theorem ospf6Receive (oi : Nat) (xid : UInt32) (frame : List UInt8)
    (hslave : Within R (dbdescRecvSlave ⟨oi, u32At frame 4⟩ frame : M ρ Unit)) :
    Within R (ospf6Receive oi xid frame : M ρ Unit) := by
  refine .bind (h.assert _) fun _ => .ite (h.helloRecv oi xid frame) <| .ite ?_ <| .ite (h.lsreqRecv oi frame) <|
    .ite (h.lsupdateRecv oi frame) (.pure _)
  refine .bind (h.theInterface oi) fun i => .bind .observe fun s => .ite (.pure _) <| .bind (h.assert _) fun _ => ?_
  exact .ite (.pure _) <| .bind (.when hslave) fun _ => h.ackSend i xid

end Adjoins

/-- What else there is: the exchange of databases. -/
structure Climbs [RouteCalc ρ] (R : State ρ × Mem → State ρ × Mem → Prop) : Prop extends Adjoins R where
  raise : ∀ st on, Within R (modifyNeighbor on fun n => { n with state := st } : M ρ Unit)
  done : ∀ on, Within R (threadAddEvent (.exchangeDone on) : M ρ Unit) ∧
    Within R (threadAddEvent (.loadingDone on) : M ρ Unit)
  headerRecv : ∀ on frame off, Within R (dbdescHeaderRecv on frame off : M ρ Unit)
  summarize : ∀ on a, Within R (summarize on a : M ρ Unit)
  describe : ∀ a on, Within R (copyTo a (.neighbor on .dbdescList) : M ρ Unit)

namespace Climbs

variable [RouteCalc ρ] {R : State ρ × Mem → State ρ × Mem → Prop} [Frame R] (h : Climbs R)
include h

theorem dbdescSendNewone (on : NbrRef) : Within R (dbdescSendNewone on : M ρ Unit) :=
  h.toAdjoins.dbdescSendNewone (fun a => h.describe a on) (h.done on).1

theorem negotiationDone (on : NbrRef) : Within R (negotiationDone on : M ρ Unit) :=
  h.toAdjoins.negotiationDone (h.summarize on) (h.raise _ on)

theorem exchangeDone (on : NbrRef) : Within R (exchangeDone on : M ρ Unit) := by
  refine .bind (h.theNeighbor on) fun n => .ite (.pure _) <| .bind (h.off _) fun _ =>
    .bind (h.dbdesc on fun _ => rfl) fun _ => ?_
  exact .bind (Plain.removeAll fun a => h.described a on) fun _ => h.stateChange (h.raise _ on)

theorem loadingDone (on : NbrRef) : Within R (loadingDone on : M ρ Unit) :=
  .bind (h.theNeighbor on) fun _ => .ite (.pure _) <| .bind (h.assert _) fun _ => h.stateChange (h.raise _ on)

theorem dbdescAccept (on : NbrRef) (frame : List UInt8) : Within R (dbdescAccept on frame : M ρ Unit) :=
  h.toAdjoins.dbdescAccept fun off _ => h.headerRecv on frame off

theorem dbdescRecvExstart (on : NbrRef) (frame : List UInt8) : Within R (dbdescRecvExstart on frame : M ρ Unit) := by
  refine .bind (h.assert _) fun _ => .ite (.bind (h.assert _) fun _ =>
    .bind (h.dbdesc on fun _ => rfl) fun _ => ?_) (.pure _)
  exact .bind (h.negotiationDone on) fun _ => .bind (h.dbdesc on fun _ => rfl) fun _ => h.dbdescAccept on frame

theorem dbdescRecvSlave (on : NbrRef) (frame : List UInt8) : Within R (dbdescRecvSlave on frame : M ρ Unit) := by
  refine .bind (h.theNeighbor on) fun n => ?_
  have hmismatch : Within R (threadAddEvent (.seqnumberMismatch on) : M ρ Unit) := h.negotiate trivial
  have hagain : Within R (Sibling.rescheduleDbdesc on (.dbdescSend on) : M ρ Unit) := h.rescheduleDbdesc on trivial
  cases n.state with
  | init =>
      refine .bind (h.twowayReceived on) fun _ => .bind (h.theNeighbor on) fun n => ?_
      exact .ite (h.dbdescRecvExstart on frame) (.pure _)
  | exstart => exact h.dbdescRecvExstart on frame
  | exchange =>
      refine .bind (h.assert _) fun _ => .ite hagain <| .ite hmismatch <| .ite hmismatch <| .ite hmismatch ?_
      exact .ite hmismatch (h.dbdescAccept on frame)
  | loading => exact .bind (h.assert _) fun _ => .ite hagain hmismatch
  | full => exact .bind (h.assert _) fun _ => .ite hagain hmismatch
  | _ => exact .pure _

theorem ospf6Receive (oi : Nat) (xid : UInt32) (frame : List UInt8) : Within R (ospf6Receive oi xid frame : M ρ Unit) :=
  h.toAdjoins.ospf6Receive oi xid frame (h.dbdescRecvSlave _ frame)

theorem runThread (t : Thread) : Within R (runThread t : M ρ Unit) := by
  refine h.toAdjoins.runThread fun ht => ?_
  cases t with
  | dbdescSendNewone on => exact h.dbdescSendNewone on
  | lsreqSend on => exact h.lsreqSend (h.done on).2
  | exchangeDone on => exact h.exchangeDone on
  | loadingDone on => exact h.loadingDone on
  | _ => exact ht.elim

theorem runTask (task : Task) : Within R (runTask task : M ρ Unit) := by
  cases task with
  | receive oi xid frame => exact h.ospf6Receive oi xid frame
  | thread t => exact h.runThread t
  | idle => exact .pure _

end Climbs

end Harry.Sibling
