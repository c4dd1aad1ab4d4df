import Harry.SiblingIntra

/-! What of a sibling's work no clock enters. Two siblings whose LSAs agree but for their ages and stamps do
the same in the neighbor and interface state machines, in the lists, in a Hello and an LSReq: the lemmas
follow the functions one by one, for every relation of the hidden states that gives this agreement. -/

namespace Harry.Sibling

open Harry.Base Harry.Rfp Prog

/-- The LSAs agree but for what the clock enters. -/
structure SameInfo (m m' : Mem) : Prop where
  length_eq : m'.heap.length = m.heap.length
  info_eq : ∀ a, (m'.lsa a).toLsaInfo = (m.lsa a).toLsaInfo

theorem SameInfo.key_eq {m m' : Mem} (h : SameInfo m m') : m'.key = m.key := by
  funext a
  simp only [Mem.key, h.length_eq, h.info_eq]

/-- A relation of hidden states that gives this agreement. -/
class SeesInfo (R : Mem → Mem → Prop) : Prop where
  sameInfo : ∀ {m m'}, R m m' → SameInfo m m'

instance : SeesInfo SameInfo := ⟨id⟩

variable {ρ : Type} {R : Mem → Mem → Prop}

/-- A sibling keeps its router id. -/
instance : Constant (State ρ) := ⟨UInt32, State.routerId⟩

section Access

theorem blind_fail : Blind R (fail : M ρ Unit) := .modify fun _ => rfl

theorem blind_assert (b : Bool) : Blind R (assert b : M ρ Unit) := .ite (fun _ => .pure _) fun _ => blind_fail

theorem blind_theInterface (oi : Nat) : Blind R (theInterface oi : M ρ Interface) := by
  refine .bind .observe fun s => ?_
  cases s.interfaces[oi]? with
  | none => exact .bind blind_fail fun _ => .pure _
  | some i => exact .pure i

theorem blind_theArea (oa : Nat) : Blind R (theArea oa : M ρ Area) := by
  refine .bind .observe fun s => ?_
  cases s.areaList[oa]? with
  | none => exact .bind blind_fail fun _ => .pure _
  | some a => exact .pure a

theorem blind_theNeighbor (on : NbrRef) : Blind R (theNeighbor on : M ρ Neighbor) := by
  refine .bind .observe fun s => ?_
  cases s.interfaces[on.oi]?.bind (·.neighborLookup on.routerId) with
  | none => exact .bind blind_fail fun _ => .pure _
  | some n => exact .pure n

theorem blind_hostnumOf (i : Interface) : Blind R (hostnumOf i : M ρ UInt32) := by
  refine .bind .observe fun s => ?_
  cases s.ctrlClients[i.ctrlClient]? with
  | none => exact .bind blind_fail fun _ => .pure _
  | some c => exact .pure _

theorem blind_modifyInterface (oi : Nat) (f : Interface → Interface) : Blind R (modifyInterface oi f : M ρ Unit) :=
  .modify fun _ => rfl

theorem blind_modifyArea (oa : Nat) (f : Area → Area) : Blind R (modifyArea oa f : M ρ Unit) := .modify fun _ => rfl

theorem blind_modifyNeighbor (on : NbrRef) (f : Neighbor → Neighbor) : Blind R (modifyNeighbor on f : M ρ Unit) :=
  .modify fun _ => rfl

theorem blind_emit (o : Output) : Blind R (emit o : M ρ Unit) :=
  .modify fun s => by
    split
    · rfl
    · rfl

theorem blind_put (as : List Addr) (db : Lsdb) : Blind R (db.put as : M ρ Unit) := by
  cases db <;> exact .modify fun _ => rfl

theorem blind_threadAddEvent (t : Thread) : Blind R (threadAddEvent t : M ρ Unit) := .modify fun _ => rfl

theorem blind_threadAddTimer (t : Thread) : Blind R (threadAddTimer t : M ρ Unit) := .modify fun _ => rfl

theorem blind_threadOff (t : Option Thread) : Blind R (threadOff t : M ρ Unit) := by
  cases t with
  | none => exact .pure _
  | some t =>
      refine .modify fun s => ?_
      split
      · rfl
      · rfl

theorem blind_sendNext (client : Nat) (type : RfpType) (body : List UInt8) :
    Blind R (sendNext client type body : M ρ Unit) := by
  refine .bind .observe fun s => ?_
  cases s.ctrlClients[client]? with
  | none => exact blind_fail
  | some c => exact .bind (blind_emit _) fun _ => .modify fun _ => rfl

theorem blind_routeSets (reqs : List (Nat × List UInt8)) : Blind R (routeSets reqs : M ρ Unit) :=
  .forM fun _ _ => blind_sendNext _ _ _

theorem blind_routeCalc (calculated : Exec (Nat × List UInt8) ρ) : Blind R (routeCalc calculated : M ρ Unit) := by
  refine .bind (blind_routeSets _) fun _ => ?_
  cases calculated.result with
  | none => exact blind_fail
  | some routes => exact .modify fun _ => rfl

theorem blind_spfSchedule (oa : Nat) (hostnum : UInt32) : Blind R (spfSchedule oa hostnum : M ρ Unit) :=
  .bind (blind_theArea oa) fun _ => .ite (fun _ => .pure _) fun _ =>
    .bind (blind_threadAddEvent _) fun _ => blind_modifyArea _ _

theorem blind_intraPrefixLsaScheduleTransit (oi : Nat) : Blind R (intraPrefixLsaScheduleTransit oi : M ρ Unit) :=
  .bind (blind_theInterface oi) fun _ => .ite (fun _ => .pure _) fun _ =>
    .bind (blind_threadAddEvent _) fun _ => blind_modifyInterface _ _

theorem blind_routerLsaSchedule (oa : Nat) (hostnum : UInt32) : Blind R (routerLsaSchedule oa hostnum : M ρ Unit) :=
  .bind (blind_theArea oa) fun _ => .ite (fun _ => .pure _) fun _ =>
    .bind (blind_threadAddEvent _) fun _ => blind_modifyArea _ _

end Access

/-! ### Reading the state

From a given state it is known what is read. A reading that fails leaves a mark in the state, and nothing else. -/

section Reading

/-- The interface at an index, empty where there is none. -/
def State.interfaceAt (s : State ρ) (oi : Nat) : Interface := s.interfaces.getD oi default

/-- The neighbor a pointer stands for, empty where it has been freed. -/
def State.neighborAt (s : State ρ) (on : NbrRef) : Neighbor :=
  ((s.interfaceAt on.oi).neighborLookup on.routerId).getD default

variable {β : Type} {p : State ρ} {R' : β → Mem → Mem → Prop}

theorem twinAt_theInterface_bind {oi : Nat} {k : Interface → M ρ β}
    (hk : ∀ b, TwinAt { p with fault := b } R (k (p.interfaceAt oi)) R') : TwinAt p R (theInterface oi >>= k) R' := by
  have hat : p.interfaceAt oi = p.interfaces[oi]?.getD default := List.getD_eq_getElem?_getD
  rw [hat] at hk
  cases hoi : p.interfaces[oi]? with
  | none =>
      rw [hoi] at hk
      refine .run_bind (q := { p with fault := true }) (fun m => ?_) rfl (hk true)
      simp only [theInterface, bind, observe, hoi]
      rfl
  | some i =>
      rw [hoi] at hk
      refine .run_bind (q := p) (fun m => ?_) rfl (hk p.fault)
      simp only [theInterface, bind, observe, hoi]
      rfl

theorem twinAt_theNeighbor_bind {on : NbrRef} {k : Neighbor → M ρ β}
    (hk : ∀ b, TwinAt { p with fault := b } R (k (p.neighborAt on)) R') : TwinAt p R (theNeighbor on >>= k) R' := by
  have hat : p.neighborAt on = (p.interfaces[on.oi]?.bind (·.neighborLookup on.routerId)).getD default := by
    unfold State.neighborAt State.interfaceAt
    rw [List.getD_eq_getElem?_getD]
    cases p.interfaces[on.oi]? with
    | none => rfl
    | some i => rfl
  rw [hat] at hk
  cases hon : p.interfaces[on.oi]?.bind (·.neighborLookup on.routerId) with
  | none =>
      rw [hon] at hk
      refine .run_bind (q := { p with fault := true }) (fun m => ?_) rfl (hk true)
      simp only [theNeighbor, bind, observe, hon]
      rfl
  | some n =>
      rw [hon] at hk
      refine .run_bind (q := p) (fun m => ?_) rfl (hk p.fault)
      simp only [theNeighbor, bind, observe, hon]
      rfl

theorem twinAt_assert_bind {c : Bool} {k : Unit → M ρ β} (hk : ∀ b, TwinAt { p with fault := b } R (k ()) R') :
    TwinAt p R (assert c >>= k) R' := by
  cases c with
  | true => exact .run_bind (q := p) (fun _ => rfl) rfl (hk p.fault)
  | false => exact .run_bind (q := { p with fault := true }) (fun _ => rfl) rfl (hk true)

end Reading

section Databases

variable [SeesInfo R]

theorem blind_infos : Blind R (infos : M ρ (Addr → LsaInfo)) :=
  .hidden fun _ _ hR => ⟨funext (SeesInfo.sameInfo hR).info_eq, hR⟩

theorem blind_keys : Blind R (keys : M ρ (Addr → Option LsaKey)) :=
  .hidden fun _ _ hR => ⟨(SeesInfo.sameInfo hR).key_eq, hR⟩

theorem blind_info (a : Addr) : Blind R (info a : M ρ LsaInfo) := .bind blind_infos fun _ => .pure _

theorem blind_lsdbLookup (key : LsaKey) (db : Option Lsdb) : Blind R (lsdbLookup key db : M ρ (Option Addr)) := by
  cases db with
  | none => exact .pure _
  | some db => exact .bind .observe fun _ => .bind blind_keys fun _ => .pure _

theorem blind_lsdbList (db : Lsdb) : Blind R (lsdbList db : M ρ (List Addr)) :=
  .bind .observe fun _ => .bind blind_keys fun _ => .pure _

theorem blind_lsdbTypeList (type : UInt16) (db : Lsdb) : Blind R (lsdbTypeList type db : M ρ (List Addr)) :=
  .bind (blind_lsdbList db) fun _ => .bind blind_keys fun _ => .pure _

theorem blind_newLsSeqnum (key : LsaKey) (db : Lsdb) : Blind R (newLsSeqnum key db : M ρ UInt32) := by
  refine .bind (blind_lsdbLookup key (some db)) fun old => ?_
  cases old with
  | none => exact .pure _
  | some a => exact .bind (blind_info a) fun _ => .pure _

theorem blind_interfaceLsdbHook (oi : Nat) (a : Addr) : Blind R (interfaceLsdbHook oi a : M ρ Unit) := by
  refine .bind (blind_info a) fun l => .ite (fun _ => ?_) fun _ => .pure _
  refine .bind (blind_theInterface oi) fun i => ?_
  refine .bind (.when fun _ => blind_intraPrefixLsaScheduleTransit oi) fun _ => ?_
  exact .bind (blind_hostnumOf i) fun _ => blind_spfSchedule _ _

theorem blind_areaLsdbHookRemove (oa : Nat) (a : Addr) : Blind R (areaLsdbHookRemove oa a : M ρ Unit) :=
  .bind (blind_info a) fun _ => .ite (fun _ => blind_spfSchedule _ _) fun _ => .pure _

theorem blind_hookRemove (db : Lsdb) (a : Addr) : Blind R (hookRemove db a : M ρ Unit) := by
  cases db with
  | interface oi => exact blind_interfaceLsdbHook oi a
  | area oa => exact blind_areaLsdbHookRemove oa a
  | _ => exact .pure _

/-- No original is ever found, for want of a scoped database. -/
theorem blind_decrementRetransCount (a : Addr) : Blind R (decrementRetransCount a : M ρ Unit) :=
  .bind (blind_info a) fun _ => (Blind.pure () : Blind R (pure () : M ρ Unit))

theorem blind_lsdbRemove (a : Addr) (db : Lsdb) : Blind R (lsdbRemove a db : M ρ Unit) :=
  .bind .observe fun _ => .bind (blind_assert _) fun _ => .bind (blind_put _ db) fun _ => blind_hookRemove db a

theorem blind_lsdbRemoveAll (db : Lsdb) : Blind R (lsdbRemoveAll db : M ρ Unit) :=
  .bind (blind_lsdbList db) fun _ => .forM fun a _ => blind_lsdbRemove a db

theorem blind_removeFrom (db : Option Lsdb) (a : Option Addr) : Blind R (removeFrom db a : M ρ Unit) := by
  cases db with
  | none => exact .pure _
  | some db =>
      cases a with
      | none => exact .pure _
      | some a => exact blind_lsdbRemove a db

theorem blind_clearRetransList (on : NbrRef) : Blind R (clearRetransList on : M ρ Unit) :=
  .bind (blind_lsdbList _) fun _ => .forM fun a _ =>
    .bind (blind_decrementRetransCount a) fun _ => blind_lsdbRemove a _

end Databases

theorem blind_getScopedLsdbSelf (l : LsaInfo) : Blind R (getScopedLsdbSelf l : M ρ (Option Lsdb)) := by
  unfold getScopedLsdbSelf
  split
  · exact .pure _
  · exact .pure _
  · exact .pure _
  · exact .bind blind_fail fun _ => .pure _

section Machines

theorem blind_neighborStateChange (nextState : NeighborState) (on : NbrRef) :
    Blind R (neighborStateChange nextState on : M ρ Unit) := by
  refine .bind (blind_theNeighbor on) fun n => .bind (blind_modifyNeighbor on _) fun _ => ?_
  refine .ite (fun _ => .pure _) fun _ => .ite (fun _ => ?_) fun _ => .pure _
  refine .bind (blind_theInterface on.oi) fun i => .bind (blind_hostnumOf i) fun hostnum => ?_
  exact .bind (blind_routerLsaSchedule _ _) fun _ => .when fun _ => blind_intraPrefixLsaScheduleTransit _

theorem blind_rescheduleDbdesc (on : NbrRef) (t : Thread) : Blind R (rescheduleDbdesc on t : M ρ Unit) :=
  .bind (blind_theNeighbor on) fun _ => .bind (blind_threadOff _) fun _ => .bind (blind_threadAddEvent t) fun _ =>
    blind_modifyNeighbor on _

theorem blind_helloReceived (on : NbrRef) : Blind R (helloReceived on : M ρ Unit) := by
  refine .bind (blind_theNeighbor on) fun n => .bind (blind_threadOff _) fun _ => ?_
  refine .bind (blind_threadAddTimer _) fun _ => .bind (blind_modifyNeighbor on _) fun _ => ?_
  exact .ite (fun _ => blind_neighborStateChange _ on) fun _ => .pure _

theorem blind_twowayReceived (on : NbrRef) : Blind R (twowayReceived on : M ρ Unit) := by
  refine .bind (blind_theNeighbor on) fun n => .ite (fun _ => .pure _) fun _ => ?_
  refine .bind (blind_threadAddEvent _) fun _ => .bind (blind_theInterface on.oi) fun i => ?_
  refine .ite (fun _ => blind_neighborStateChange _ on) fun _ => ?_
  refine .bind (blind_neighborStateChange _ on) fun _ => .bind (blind_modifyNeighbor on _) fun _ => ?_
  exact blind_rescheduleDbdesc on _

theorem blind_onewayReceived (on : NbrRef) : Blind R (onewayReceived on : M ρ Unit) :=
  .bind (blind_theNeighbor on) fun _ => .ite (fun _ => .pure _) fun _ =>
    .bind (blind_neighborStateChange _ on) fun _ => blind_threadAddEvent _

theorem blind_loadingDone (on : NbrRef) : Blind R (loadingDone on : M ρ Unit) :=
  .bind (blind_theNeighbor on) fun _ => .ite (fun _ => .pure _) fun _ =>
    .bind (blind_assert _) fun _ => blind_neighborStateChange _ on

theorem blind_adjOk (on : NbrRef) : Blind R (adjOk on : M ρ Unit) :=
  .bind (blind_theNeighbor on) fun _ => .bind (blind_theInterface on.oi) fun _ =>
    .ite (fun _ => blind_neighborStateChange _ on) fun _ => .pure _

theorem blind_drElection (oi : Nat) : Blind R (drElection oi : M ρ InterfaceState) := by
  refine .bind (blind_theInterface oi) fun i => .bind .observe fun s => ?_
  refine .bind (.when fun _ => .forM fun n _ => .when fun _ => blind_threadAddEvent _) fun _ => ?_
  exact .bind (blind_modifyInterface oi _) fun _ => .pure _

theorem blind_electState (oi : Nat) : Blind R (electState oi : M ρ Unit) :=
  .bind (blind_drElection oi) fun _ => blind_modifyInterface oi _

theorem blind_waitTimer (oi : Nat) : Blind R (waitTimer oi : M ρ Unit) :=
  .bind (blind_theInterface oi) fun _ => .ite (fun _ => blind_electState oi) fun _ => .pure _

theorem blind_neighborChange (oi : Nat) : Blind R (neighborChange oi : M ρ Unit) :=
  .bind (blind_theInterface oi) fun _ => .ite (fun _ => blind_electState oi) fun _ => .pure _

variable [SeesInfo R]

theorem blind_exchangeDone (on : NbrRef) : Blind R (exchangeDone on : M ρ Unit) := by
  refine .bind (blind_theNeighbor on) fun n => .ite (fun _ => .pure _) fun _ => ?_
  refine .bind (blind_threadOff _) fun _ => .bind (blind_modifyNeighbor on _) fun _ => ?_
  exact .bind (blind_lsdbRemoveAll _) fun _ => blind_neighborStateChange _ on

theorem blind_renegotiate (on : NbrRef) : Blind R (renegotiate on : M ρ Unit) := by
  refine .bind (blind_theNeighbor on) fun n => .ite (fun _ => .pure _) fun _ => ?_
  refine .bind (blind_neighborStateChange _ on) fun _ => .bind (blind_modifyNeighbor on _) fun _ => ?_
  refine .bind (blind_lsdbRemoveAll _) fun _ => .bind (blind_lsdbRemoveAll _) fun _ => ?_
  exact .bind (blind_clearRetransList on) fun _ => blind_rescheduleDbdesc on _

theorem blind_neighborDelete (on : NbrRef) : Blind R (neighborDelete on : M ρ Unit) := by
  refine .bind (blind_lsdbRemoveAll _) fun _ => .bind (blind_lsdbRemoveAll _) fun _ => ?_
  refine .bind (blind_clearRetransList on) fun _ => .bind (blind_lsdbRemoveAll _) fun _ => ?_
  refine .bind (blind_lsdbRemoveAll _) fun _ => .bind (blind_lsdbRemoveAll _) fun _ => ?_
  refine .bind (blind_lsdbRemoveAll _) fun _ => .bind (blind_theNeighbor on) fun n => ?_
  refine .bind (blind_threadOff _) fun _ => .bind (blind_threadOff _) fun _ => ?_
  refine .bind (blind_threadOff _) fun _ => .bind (blind_threadOff _) fun _ => ?_
  exact .bind (blind_threadOff _) fun _ => .bind (blind_modifyInterface _ _) fun _ => .modify fun _ => rfl

theorem blind_inactivityTimer (on : NbrRef) : Blind R (inactivityTimer on : M ρ Unit) :=
  .bind (blind_modifyNeighbor on _) fun _ => .bind (blind_neighborStateChange _ on) fun _ =>
    .bind (blind_threadAddEvent _) fun _ => blind_neighborDelete on

end Machines

section Messages

theorem blind_msgSend (i : Interface) (type : UInt8) (body : List UInt8) : Blind R (msgSend i type body : M ρ Unit) :=
  .bind .observe fun _ => .bind (blind_theArea _) fun _ => blind_sendNext _ _ _

theorem blind_helloSend (oi : Nat) : Blind R (helloSend oi : M ρ Unit) := by
  refine .bind (blind_modifyInterface oi _) fun _ => .bind (blind_theInterface oi) fun i => ?_
  refine .ite (fun _ => .pure _) fun _ => .bind (.modify fun s => ?_) fun _ => ?_
  · split
    · rfl
    · rfl
  refine .bind (blind_threadAddTimer _) fun _ => .bind (blind_modifyInterface oi _) fun _ => ?_
  exact .bind (blind_msgSend _ _ _) fun _ => .modify fun _ => rfl

theorem blind_ackSend (i : Interface) (xid : UInt32) : Blind R (ackSend i xid : M ρ Unit) :=
  .bind .observe fun _ => .ite (fun _ => .pure _) fun _ => blind_emit _

theorem blind_helloRecv (oi : Nat) (xid : UInt32) (frame : List UInt8) : Blind R (helloRecv oi xid frame : M ρ Unit) := by
  refine .bind (blind_theInterface oi) fun i => .bind (blind_assert _) fun _ => ?_
  refine .ite (fun _ => .pure _) fun _ => .bind (blind_assert _) fun _ => ?_
  refine .bind (.when fun _ => blind_modifyInterface oi _) fun _ => .bind (blind_theNeighbor _) fun n => ?_
  refine .bind .observe fun s => .bind (blind_modifyNeighbor _ _) fun _ => ?_
  refine .bind (blind_helloReceived _) fun _ => ?_
  refine .bind (.ite (fun _ => blind_twowayReceived _) fun _ => blind_onewayReceived _) fun _ => ?_
  exact .bind (.when fun _ => blind_threadAddEvent _) fun _ => blind_ackSend i xid

theorem blind_lsupdateAgain (on : NbrRef) : Blind R (lsupdateAgain on : M ρ Unit) :=
  .bind (blind_theNeighbor on) fun _ =>
    .ite (fun _ => .bind (blind_threadAddEvent _) fun _ => blind_modifyNeighbor on _) fun _ =>
      .ite (fun _ => .bind (blind_threadAddTimer _) fun _ => blind_modifyNeighbor on _) fun _ => .pure _

end Messages

end Harry.Sibling
