import Harry.SiblingRequests

/-! Requests that are answered. The entry of an LSA on the list of requests to a neighbor goes in the neighbor's turn
of `ospf6_flood_interface`; what comes before that turn and behind it leaves the entry alone. -/

namespace Harry.Sibling

open Harry.Base Harry.Rfp Prog

variable {ρ : Type}

section Keeps

/-- What decides whether an LSA gets to the requests to its sender: the neighbors of the interfaces, the interfaces of
the areas, the requests and the state of the sender; and how often `bad_lsreq` is scheduled for it. -/
structure Kept where
  neighbors : List (List UInt32)
  areas : List (List Nat × Bool)
  requests : List Addr
  state : NeighborState
  bad : Nat

def State.kept (sender : NbrRef) (s : State ρ) : Kept where
  neighbors := s.interfaces.map fun i => i.neighborList.map fun n => n.routerId
  areas := s.areaList.map fun a => (a.ifList, a.stub)
  requests := s.requests sender
  state := (s.neighborAt sender).state
  bad := s.events.count (.badLsreq sender)

/-- All that is left alone; LSAs stay and show no ages but those that they could have shown before. -/
structure Keeps (sender : NbrRef) (x y : State ρ × Mem) : Prop where
  kept : y.1.kept sender = x.1.kept sender
  length : x.2.heap.length ≤ y.2.heap.length
  header : ∀ a < x.2.heap.length, (y.2.lsa a).header = (x.2.lsa a).header
  lsdb : ∀ a < x.2.heap.length, (y.2.lsa a).lsdb = (x.2.lsa a).lsdb
  shown : ∀ a < x.2.heap.length, ∀ n, ∃ j, (y.2.lsa a).ageAt (y.2.clock n) = (x.2.lsa a).ageAt (x.2.clock j)

variable {sender : NbrRef}

instance : Frame (Keeps (ρ := ρ) sender) where
  refl _ := ⟨rfl, le_rfl, fun _ _ => rfl, fun _ _ => rfl, fun _ _ n => ⟨n, rfl⟩⟩
  trans h h' := by
    refine ⟨h'.kept.trans h.kept, h.length.trans h'.length, fun a ha => ?_, fun a ha => ?_, fun a ha n => ?_⟩
    · exact (h'.header a (ha.trans_le h.length)).trans (h.header a ha)
    · exact (h'.lsdb a (ha.trans_le h.length)).trans (h.lsdb a ha)
    · obtain ⟨j, hj⟩ := h'.shown a (ha.trans_le h.length) n
      obtain ⟨i, hi⟩ := h.shown a ha j
      exact ⟨i, hj.trans hi⟩

theorem keeps_state {f : State ρ → State ρ} (h : ∀ s, (f s).kept sender = s.kept sender) :
    Within (Keeps sender) (modify f : M ρ Unit) :=
  .modify fun s _ => ⟨h s, le_rfl, fun _ _ => rfl, fun _ _ => rfl, fun _ _ n => ⟨n, rfl⟩⟩

theorem keeps_fail : Within (Keeps sender) (fail : M ρ Unit) := keeps_state fun _ => rfl

theorem keeps_assert (b : Bool) : Within (Keeps sender) (assert b : M ρ Unit) := .ite (.pure _) keeps_fail

theorem keeps_theInterface (oi : Nat) : Within (Keeps sender) (theInterface oi : M ρ Interface) := by
  refine .bind .observe fun s => ?_
  cases s.interfaces[oi]? with
  | none => exact .bind keeps_fail fun _ => .pure _
  | some i => exact .pure i

theorem keeps_theArea (oa : Nat) : Within (Keeps sender) (theArea oa : M ρ Area) := by
  refine .bind .observe fun s => ?_
  cases s.areaList[oa]? with
  | none => exact .bind keeps_fail fun _ => .pure _
  | some a => exact .pure a

theorem keeps_theNeighbor (on : NbrRef) : Within (Keeps sender) (theNeighbor on : M ρ Neighbor) := by
  refine .bind .observe fun s => ?_
  cases s.interfaces[on.oi]?.bind (·.neighborLookup on.routerId) with
  | none => exact .bind keeps_fail fun _ => .pure _
  | some n => exact .pure n

theorem keeps_hostnumOf (i : Interface) : Within (Keeps sender) (hostnumOf i : M ρ UInt32) := by
  refine .bind .observe fun s => ?_
  cases s.ctrlClients[i.ctrlClient]? with
  | none => exact .bind keeps_fail fun _ => .pure _
  | some c => exact .pure _

/-- What is kept of the sender, found among the neighbors of its interface. -/
def Interface.keptOf (i : Interface) (routerId : UInt32) : List Addr × NeighborState :=
  (((i.neighborLookup routerId).getD default).requestList, ((i.neighborLookup routerId).getD default).state)

theorem keeps_modifyInterface (oi : Nat) {f : Interface → Interface}
    (hids : ∀ i, (f i).neighborList.map (fun n => n.routerId) = i.neighborList.map fun n => n.routerId)
    (hkept : oi = sender.oi → ∀ i, (f i).keptOf sender.routerId = i.keptOf sender.routerId) :
    Within (Keeps sender) (modifyInterface oi f : M ρ Unit) := by
  refine keeps_state fun s => ?_
  have hsender : ((s.interfaces.modify oi f).getD sender.oi default).keptOf sender.routerId =
      (s.interfaces.getD sender.oi default).keptOf sender.routerId := by
    rw [List.getD_eq_getElem?_getD, List.getD_eq_getElem?_getD, List.getElem?_modify]
    cases s.interfaces[sender.oi]? with
    | none => rfl
    | some i =>
        by_cases h : oi = sender.oi
        · simp [h, hkept h i]
        · simp [h]
  have hneighbors : (s.interfaces.modify oi f).map (fun i => i.neighborList.map fun n => n.routerId) =
      s.interfaces.map fun i => i.neighborList.map fun n => n.routerId :=
    map_modify_of_eq (g := fun i : Interface => i.neighborList.map fun n => n.routerId) hids s.interfaces oi
  simp only [State.kept, Kept.mk.injEq]
  exact ⟨hneighbors, trivial, congrArg Prod.fst hsender, congrArg Prod.snd hsender, trivial⟩

/-- A change of an interface that does not touch its neighbors. -/
theorem keeps_modifyInterface_field (oi : Nat) {f : Interface → Interface}
    (h : ∀ i, (f i).neighborList = i.neighborList) : Within (Keeps sender) (modifyInterface oi f : M ρ Unit) :=
  keeps_modifyInterface oi (fun i => congrArg _ (h i)) fun _ i => by
    simp only [Interface.keptOf, Interface.neighborLookup, h]

theorem keeps_modifyArea (oa : Nat) {f : Area → Area} (h : ∀ a, ((f a).ifList, (f a).stub) = (a.ifList, a.stub)) :
    Within (Keeps sender) (modifyArea oa f : M ρ Unit) :=
  keeps_state fun s => by
    have hareas := map_modify_of_eq (g := fun a : Area => (a.ifList, a.stub)) h s.areaList oa
    simp only [State.kept, Kept.mk.injEq]
    exact ⟨trivial, hareas, rfl, rfl, trivial⟩

theorem find?_routerId_map_of_ne {f : Neighbor → Neighbor} (hid : ∀ n, (f n).routerId = n.routerId) {r r' : UInt32}
    (hne : r' ≠ r) (ns : List Neighbor) :
    (ns.map fun n : Neighbor => if n.routerId == r' then f n else n).find? (fun n => n.routerId == r) =
      ns.find? fun n => n.routerId == r := by
  induction ns with
  | nil => rfl
  | cons n ns ih =>
      rw [List.map_cons, List.find?_cons, List.find?_cons, ih]
      by_cases h : n.routerId = r'
      · have hn : (r' == r) = false := beq_eq_false_iff_ne.mpr hne
        simp [h, hid, hn]
      · simp [h]

theorem keeps_modifyNeighbor (on : NbrRef) {f : Neighbor → Neighbor} (hid : ∀ n, (f n).routerId = n.routerId)
    (hf : on = sender → ∀ n, ((f n).requestList, (f n).state) = (n.requestList, n.state)) :
    Within (Keeps sender) (modifyNeighbor on f : M ρ Unit) := by
  refine keeps_modifyInterface on.oi (fun i => ?_) fun hoi i => ?_
  · rw [List.map_map]
    refine List.map_congr_left fun n _ => ?_
    rw [Function.comp_apply]
    split
    · exact hid n
    · rfl
  · unfold Interface.keptOf Interface.neighborLookup
    by_cases hr : on.routerId = sender.routerId
    · have heq : on = sender := by
        cases on
        cases sender
        simp_all
      rw [← hr, find?_routerId_map hid]
      cases i.neighborList.find? fun n => n.routerId == on.routerId with
      | none => rfl
      | some n => exact hf heq n
    · rw [find?_routerId_map_of_ne hid hr]

theorem keeps_emit (o : Output) : Within (Keeps sender) (emit o : M ρ Unit) :=
  keeps_state fun s => by split <;> rfl

theorem keeps_threadAddEvent {t : Thread} (h : t ≠ .badLsreq sender) :
    Within (Keeps sender) (threadAddEvent t : M ρ Unit) :=
  keeps_state fun s => by
    simp only [State.kept, Kept.mk.injEq, List.count_append, List.count_singleton]
    exact ⟨trivial, trivial, rfl, rfl, by simp [h]⟩

theorem keeps_threadAddTimer (t : Thread) : Within (Keeps sender) (threadAddTimer t : M ρ Unit) :=
  keeps_state fun _ => rfl

theorem keeps_sendNext (client : Nat) (type : RfpType) (body : List UInt8) :
    Within (Keeps sender) (sendNext client type body : M ρ Unit) := by
  refine .bind .observe fun s => ?_
  cases s.ctrlClients[client]? with
  | none => exact keeps_fail
  | some c => exact .bind (keeps_emit _) fun _ => keeps_state fun _ => rfl

theorem keeps_spfSchedule (oa : Nat) (hostnum : UInt32) : Within (Keeps sender) (spfSchedule oa hostnum : M ρ Unit) :=
  .bind (keeps_theArea oa) fun _ => .ite (.pure _) <|
    .bind (keeps_threadAddEvent (by simp)) fun _ => keeps_modifyArea _ fun _ => rfl

theorem keeps_intraPrefixLsaScheduleTransit (oi : Nat) :
    Within (Keeps sender) (intraPrefixLsaScheduleTransit oi : M ρ Unit) :=
  .bind (keeps_theInterface oi) fun _ => .ite (.pure _) <|
    .bind (keeps_threadAddEvent (by simp)) fun _ => keeps_modifyInterface_field _ fun _ => rfl

theorem keeps_read {α : Type} (f : Mem → α) : Within (Keeps sender) (hidden fun m => (f m, m) : M ρ α) :=
  .hidden fun _ _ => ⟨rfl, le_rfl, fun _ _ => rfl, fun _ _ => rfl, fun _ _ n => ⟨n, rfl⟩⟩

theorem keeps_gettime : Within (Keeps sender) (gettime : M ρ Timeval) :=
  .hidden fun _ _ => ⟨rfl, le_rfl, fun _ _ => rfl, fun _ _ => rfl, fun _ _ n => ⟨n + 1, rfl⟩⟩

theorem keeps_ageCurrent (a : Addr) : Within (Keeps sender) (ageCurrent a : M ρ UInt16) := by
  rw [ageCurrent_eq]
  refine .hidden fun _ m =>
    ⟨rfl, by simp [Mem.refresh, Mem.update, Mem.tick], fun b _ => ?_, fun b _ => ?_, fun b _ n => ?_⟩
  · exact congrArg LsaInfo.header (info_refresh m a b)
  · exact congrArg LsaInfo.lsdb (info_refresh m a b)
  · show ∃ j, ((m.tick.update a _).lsa b).ageAt (m.clock (n + 1)) = _
    rw [lsa_update]
    split
    · next h =>
        obtain ⟨rfl, -⟩ := h
        have hshown := ageAt_refresh (m.lsa a) (m.clock 0) (m.clock (n + 1))
        split at hshown
        · next hmax => exact ⟨0, hshown.trans hmax.symm⟩
        · exact ⟨n + 1, hshown⟩
    · exact ⟨n + 1, rfl⟩

theorem keeps_modifyInfo (a : Addr) {f : LsaInfo → LsaInfo} (h : ∀ l, ((f l).header, (f l).lsdb) = (l.header, l.lsdb)) :
    Within (Keeps sender) (modifyInfo a f : M ρ Unit) := by
  refine .hidden fun _ m => ⟨rfl, by simp [Mem.update], fun b _ => ?_, fun b _ => ?_, fun b _ n => ⟨n, ?_⟩⟩
  · rw [lsa_update]
    split
    · exact congrArg Prod.fst (h _)
    · rfl
  · rw [lsa_update]
    split
    · exact congrArg Prod.snd (h _)
    · rfl
  · rw [lsa_update]
    split
    · rfl
    · rfl

theorem keeps_infos : Within (Keeps sender) (infos : M ρ (Addr → LsaInfo)) := keeps_read _

theorem keeps_keys : Within (Keeps sender) (keys : M ρ (Addr → Option LsaKey)) := keeps_read _

theorem keeps_info (a : Addr) : Within (Keeps sender) (info a : M ρ LsaInfo) := .bind keeps_infos fun _ => .pure _

theorem keeps_isMaxage (a : Addr) : Within (Keeps sender) (isMaxage a : M ρ Bool) :=
  .bind (keeps_ageCurrent a) fun _ => .pure _

theorem keeps_compareAges (a b : Addr) : Within (Keeps sender) (compareAges a b : M ρ Int) :=
  .bind (keeps_ageCurrent a) fun _ => .bind (keeps_ageCurrent b) fun _ => .pure _

theorem keeps_lsaCompare (a b : Addr) : Within (Keeps sender) (lsaCompare a b : M ρ Int) :=
  .bind keeps_infos fun _ => .bind (keeps_assert _) fun _ => .ite (.pure _) <| .ite (.pure _) <| .ite (.pure _) <|
    .ite (.pure _) (keeps_compareAges a b)

theorem keeps_lsaIsChanged (a b : Addr) : Within (Keeps sender) (lsaIsChanged a b : M ρ Bool) :=
  .bind (keeps_isMaxage a) fun _ => .bind (keeps_isMaxage b) fun _ => .bind keeps_infos fun _ => .ite (.pure _) <|
    .ite (.pure _) <| .bind (keeps_assert _) fun _ => .pure _

theorem keeps_push (f : Mem → Lsa) : Within (Keeps sender) (hidden fun m => (m.heap.length, m.push (f m)) : M ρ Addr) := by
  refine .hidden fun _ m => ⟨rfl, by simp [Mem.push], fun a ha => ?_, fun a ha => ?_, fun a ha n => ⟨n, ?_⟩⟩
  · rw [lsa_push, if_neg ha.ne]
  · rw [lsa_push, if_neg ha.ne]
  · show ((m.push (f m)).lsa a).ageAt (m.clock n) = _
    rw [lsa_push, if_neg ha.ne]

theorem keeps_lsaCopy (a : Addr) : Within (Keeps sender) (lsaCopy a : M ρ Addr) :=
  .bind (keeps_ageCurrent a) fun _ => keeps_push _

theorem keeps_lsdbLookup (key : LsaKey) (db : Option Lsdb) :
    Within (Keeps sender) (lsdbLookup key db : M ρ (Option Addr)) := by
  cases db with
  | none => exact .pure _
  | some db => exact .bind .observe fun _ => .bind keeps_keys fun _ => .pure _

theorem keeps_put (as : List Addr) {db : Lsdb} (h : db ≠ .neighbor sender .requestList) :
    Within (Keeps sender) (db.put as : M ρ Unit) := by
  cases db with
  | interface oi => exact keeps_modifyInterface_field oi fun _ => rfl
  | area oa => exact keeps_modifyArea oa fun _ => rfl
  | as => exact keeps_state fun _ => rfl
  | interfaceSelf oi => exact keeps_modifyInterface_field oi fun _ => rfl
  | interfaceLsupdate oi => exact keeps_modifyInterface_field oi fun _ => rfl
  | interfaceLsack oi => exact keeps_modifyInterface_field oi fun _ => rfl
  | areaSelf oa => exact keeps_modifyArea oa fun _ => rfl
  | neighbor on list =>
      refine keeps_modifyNeighbor on (fun n => by cases list <;> rfl) fun hon n => ?_
      subst hon
      cases list with
      | requestList => exact absurd rfl h
      | _ => rfl

theorem keeps_interfaceLsdbHook (oi : Nat) (a : Addr) : Within (Keeps sender) (interfaceLsdbHook oi a : M ρ Unit) := by
  refine .bind (keeps_info a) fun l => .ite ?_ (.pure _)
  refine .bind (keeps_theInterface oi) fun i => .bind (.when (keeps_intraPrefixLsaScheduleTransit oi)) fun _ => ?_
  exact .bind (keeps_hostnumOf i) fun _ => keeps_spfSchedule _ _

theorem keeps_hookRemove (db : Lsdb) (a : Addr) : Within (Keeps sender) (hookRemove db a : M ρ Unit) := by
  cases db with
  | interface oi => exact keeps_interfaceLsdbHook oi a
  | area oa => exact .bind (keeps_info a) fun _ => .ite (keeps_spfSchedule _ _) (.pure _)
  | _ => exact .pure _

theorem keeps_lsdbRemove (a : Addr) {db : Lsdb} (h : db ≠ .neighbor sender .requestList) :
    Within (Keeps sender) (lsdbRemove a db : M ρ Unit) :=
  .bind .observe fun _ => .bind (keeps_assert _) fun _ => .bind (keeps_put _ h) fun _ => keeps_hookRemove db a

theorem keeps_examineRequest (a : Addr) {on : NbrRef} (h : on ≠ sender) :
    Within (Keeps sender) (examineRequest a on : M ρ Bool) := by
  have hdb : Lsdb.neighbor on .requestList ≠ .neighbor sender .requestList := by simpa using h
  refine .bind (keeps_info a) fun l => .bind (keeps_lsdbLookup _ _) fun req => ?_
  cases req with
  | none => exact .pure _
  | some req =>
      refine .bind (keeps_lsaCompare a req) fun _ => .ite (.pure _) ?_
      refine .bind (keeps_lsaCompare a req) fun _ => .ite ?_ ?_
      · exact .bind (keeps_lsdbRemove req hdb) fun _ => .pure _
      · exact .bind (keeps_lsaCompare a req) fun _ => .bind (.when (keeps_lsdbRemove req hdb)) fun _ => .pure _

variable [RouteCalc ρ]

theorem keeps_intraPrefixLsaAdd (oa : Nat) (a : Addr) : Within (Keeps sender) (intraPrefixLsaAdd oa a : M ρ Unit) := by
  refine .bind (keeps_isMaxage a) fun old => .ite (.pure _) ?_
  refine .bind (keeps_info a) fun l => .bind .observe fun s => .bind (.forM fun _ _ => keeps_sendNext _ _ _) fun _ => ?_
  cases (RouteCalc.intraPrefixLsaAdd s.routes oa (s.areaList.getD oa default).areaId l).result with
  | none => exact keeps_fail
  | some routes => exact keeps_state fun _ => rfl

theorem keeps_hookAdd (db : Lsdb) (a : Addr) : Within (Keeps sender) (hookAdd db a : M ρ Unit) := by
  cases db with
  | interface oi => exact keeps_interfaceLsdbHook oi a
  | area oa =>
      exact .bind (keeps_info a) fun _ => .ite (keeps_spfSchedule _ _) <| .ite (keeps_intraPrefixLsaAdd oa a) (.pure _)
  | _ => exact .pure _

theorem keeps_hookChange (db : Lsdb) (old a : Addr) : Within (Keeps sender) (hookChange db old a : M ρ Unit) :=
  .bind (keeps_isMaxage a) fun _ => .ite (.bind (keeps_hookRemove db old) fun _ => keeps_hookRemove db a) <|
    .bind (keeps_isMaxage old) fun _ => .ite (keeps_hookAdd db a) <|
      .bind (keeps_hookRemove db old) fun _ => keeps_hookAdd db a

theorem keeps_lsdbAdd (a : Addr) {db : Lsdb} (h : db ≠ .neighbor sender .requestList) :
    Within (Keeps sender) (lsdbAdd a db : M ρ Unit) := by
  refine .bind .observe fun s => .bind keeps_keys fun keyOf => .bind (keeps_put _ h) fun _ => ?_
  cases (insertLsa keyOf a (db.get s)).2 with
  | none => exact .bind (keeps_isMaxage a) fun _ => .ite (keeps_hookRemove db a) (keeps_hookAdd db a)
  | some old => exact .bind (keeps_lsaIsChanged old a) fun _ => .when (keeps_hookChange db old a)

/-! Flooding and acknowledgement -/

/-- Another neighbor's turn. -/
theorem keeps_floodNeighbor (from? : Option NbrRef) (a : Addr) {on : NbrRef} (h : on ≠ sender) :
    Within (Keeps sender) (floodNeighbor from? a on : M ρ Bool) := by
  refine .bind (keeps_theNeighbor on) fun n => .ite (.pure _) ?_
  refine .bind (.ite (keeps_examineRequest a h) (.pure _)) fun goOn => .ite (.pure _) ?_
  refine .bind (keeps_modifyInfo a fun _ => rfl) fun _ => .bind (keeps_lsaCopy a) fun copy => ?_
  refine .bind (keeps_lsdbAdd copy (by simp)) fun _ => .bind (.when ?_) fun _ => .pure _
  exact .bind (keeps_threadAddTimer _) fun _ => keeps_modifyNeighbor on (fun _ => rfl) fun _ _ => rfl

theorem keeps_floodNeighbors (from? : Option NbrRef) (a : Addr) {ons : List NbrRef} (h : sender ∉ ons) (n : Int) :
    Within (Keeps sender) (floodNeighbors from? a ons n : M ρ Int) := by
  induction ons generalizing n with
  | nil => exact .pure _
  | cons on ons ih =>
      obtain ⟨hon, hons⟩ := not_or.mp (List.mem_cons.not.mp h)
      exact .bind (keeps_floodNeighbor from? a fun heq => hon heq.symm) fun _ => ih hons _

/-- What `ospf6_flood_interface` does behind the turns of the neighbors. -/
theorem keeps_floodInterface_rest (a : Addr) (oi : Nat) (i : Interface) :
    Within (Keeps sender) (do
      let copy ← lsaCopy a
      lsdbAdd copy (.interfaceLsupdate oi)
      when (i.threadSendLsupdate.isNone = true) do
        threadAddEvent (.lsupdateSendInterface oi)
        modifyInterface oi fun i => { i with threadSendLsupdate := some (.lsupdateSendInterface oi) } : M ρ Unit) := by
  refine .bind (keeps_lsaCopy a) fun copy => .bind (keeps_lsdbAdd copy (by simp)) fun _ => .when ?_
  exact .bind (keeps_threadAddEvent (by simp)) fun _ => keeps_modifyInterface_field oi fun _ => rfl

theorem keeps_floodInterface (from? : Option NbrRef) (a : Addr) {oi : Nat} (h : oi ≠ sender.oi) :
    Within (Keeps sender) (floodInterface from? a oi : M ρ Unit) := by
  refine .bind (keeps_theInterface oi) fun i => .bind .observe fun s => ?_
  refine .bind (keeps_floodNeighbors from? a (fun hmem => ?_) _) fun n => ?_
  · obtain ⟨n, -, heq⟩ := List.mem_map.mp hmem
    exact h (congrArg NbrRef.oi heq)
  · exact .ite (.pure _) <| .ite (.pure _) <| .ite (.pure _) (keeps_floodInterface_rest a oi i)

theorem keeps_acknowledgeDelayed (a : Addr) (oi : Nat) : Within (Keeps sender) (acknowledgeDelayed a oi : M ρ Unit) := by
  refine .bind (keeps_lsaCopy a) fun copy => .bind (keeps_lsdbAdd copy (by simp)) fun _ => ?_
  refine .bind (keeps_theInterface oi) fun i => .when (.bind (keeps_threadAddTimer _) fun _ => ?_)
  exact keeps_modifyInterface_field oi fun _ => rfl

theorem keeps_acknowledgeDirect (a : Addr) (on : NbrRef) : Within (Keeps sender) (acknowledgeDirect a on : M ρ Unit) := by
  refine .bind (keeps_lsaCopy a) fun copy => .bind (keeps_lsdbAdd copy (by simp)) fun _ => ?_
  refine .bind (keeps_theNeighbor on) fun n => .when (.bind (keeps_threadAddEvent (by simp)) fun _ => ?_)
  exact keeps_modifyNeighbor on (fun _ => rfl) fun _ _ => rfl

theorem keeps_acknowledgeLsa (a : Addr) (ismoreRecent : Int) (on : NbrRef) :
    Within (Keeps sender) (acknowledgeLsa a ismoreRecent on : M ρ Unit) := by
  refine .bind (keeps_theInterface on.oi) fun i => .ite ?_ ?_
  · refine .bind (keeps_info a) fun l => .bind (keeps_theInterface on.oi) fun i => .ite (.pure _) ?_
    refine .ite (.ite (keeps_acknowledgeDelayed _ _) (.pure _)) ?_
    exact .ite (.ite (keeps_acknowledgeDelayed _ _) (.pure _)) (.ite (keeps_acknowledgeDirect _ _) (.pure _))
  · refine .bind (keeps_info a) fun l => .ite (.pure _) ?_
    exact .ite (keeps_acknowledgeDelayed _ _) (.ite (.pure _) (.ite (keeps_acknowledgeDirect _ _) (.pure _)))

theorem keeps_installLsa (a : Addr) (db : Lsdb) (h : db ≠ .neighbor sender .requestList) :
    Within (Keeps sender) (stampInstalled a >>= fun _ => lsdbAdd a db : M ρ Unit) := by
  refine .bind (.bind keeps_gettime fun now => .bind (keeps_ageCurrent a) fun _ => ?_) fun _ => keeps_lsdbAdd a h
  refine .hidden fun _ m => ⟨rfl, by simp [Mem.update], fun b _ => ?_, fun b _ => ?_, fun b _ n => ⟨n, ?_⟩⟩
  · rw [lsa_update]
    split <;> rfl
  · rw [lsa_update]
    split <;> rfl
  · rw [lsa_update]
    split <;> rfl

end Keeps

section Turn

variable {sender on : NbrRef} {s : State ρ} {m : Mem} {x y : State ρ × Mem}

/-- The requests to the sender do not get more. -/
def Shrinks (sender : NbrRef) (x y : State ρ × Mem) : Prop := ∀ a ∈ y.1.requests sender, a ∈ x.1.requests sender

instance : Frame (Shrinks (ρ := ρ) sender) where
  refl _ _ ha := ha
  trans h h' a ha := h a (h' a ha)

theorem Keeps.requests (h : Keeps sender x y) : y.1.requests sender = x.1.requests sender :=
  congrArg Kept.requests h.kept

theorem Keeps.shrinks (h : Keeps sender x y) : Shrinks sender x y := fun _ ha => h.requests ▸ ha

theorem shrinks_of_keeps {α : Type} {m : M ρ α} (h : Within (Keeps sender) m) : Within (Shrinks sender) m :=
  fun s n => (h s n).shrinks

/-- The requests are what has been put there, if the neighbor is. -/
theorem requests_put (as : List Addr) (s : State ρ) (m : Mem) (h : s.requests sender = [] → as = []) :
    State.requests sender (((Lsdb.neighbor sender .requestList).put as : M ρ Unit) s m).2.1 = as := by
  have hlookup := lookup_modifyNeighbor sender (f := fun n => n.setList as .requestList) (fun _ => rfl) s m
  unfold State.requests State.view
  rw [neighborAt_eq]
  refine (congrArg (fun o : Option Neighbor => (o.getD default).requestList) hlookup).trans ?_
  cases hn : s.interfaces[sender.oi]?.bind (·.neighborLookup sender.routerId) with
  | some n => rfl
  | none =>
      have hnone : s.requests sender = [] := by
        rw [State.requests, State.view, neighborAt_eq, hn]
        rfl
      rw [h hnone]
      rfl

/-- `ospf6_lsdb_remove` of a request. -/
theorem lsdbRemove_requests (a : Addr) (s : State ρ) (m : Mem) :
    State.requests sender (lsdbRemove a (.neighbor sender .requestList) s m).2.1 = (s.requests sender).erase a := by
  obtain ⟨q, hassert, hq⟩ : ∃ q, (assert (decide (a ∈ s.requests sender)) : M ρ Unit) s m = ((), q, m) ∧
      q.requests sender = s.requests sender := by
    cases decide (a ∈ s.requests sender) with
    | true => exact ⟨s, rfl, rfl⟩
    | false => exact ⟨{ s with fault := true }, rfl, rfl⟩
  have hobserve : (Prog.observe : M ρ (State ρ)) s m = (s, s, m) := rfl
  have hget : (Lsdb.neighbor sender .requestList).get s = s.requests sender := rfl
  unfold lsdbRemove
  rw [Prog.run_bind hobserve, hget, Prog.run_bind hassert]
  refine requests_put _ q m fun hnone => ?_
  rw [hq] at hnone
  rw [hnone]
  rfl

theorem shrinks_lsdbRemove (a : Addr) :
    Within (Shrinks sender) (lsdbRemove a (.neighbor sender .requestList) : M ρ Unit) := by
  intro s m b hb
  rw [lsdbRemove_requests] at hb
  exact List.mem_of_mem_erase hb

theorem shrinks_examineRequest (a : Addr) : Within (Shrinks sender) (examineRequest a sender : M ρ Bool) := by
  refine .bind (shrinks_of_keeps (keeps_info a)) fun l => .bind (shrinks_of_keeps (keeps_lsdbLookup _ _)) fun req => ?_
  cases req with
  | none => exact .pure _
  | some req =>
      refine .bind (shrinks_of_keeps (keeps_lsaCompare a req)) fun _ => .ite (.pure _) ?_
      refine .bind (shrinks_of_keeps (keeps_lsaCompare a req)) fun _ => .ite ?_ ?_
      · exact .bind (shrinks_lsdbRemove req) fun _ => .pure _
      · refine .bind (shrinks_of_keeps (keeps_lsaCompare a req)) fun _ => .bind ?_ fun _ => .pure _
        exact .when (shrinks_lsdbRemove req)

variable [RouteCalc ρ]

theorem shrinks_floodNeighbor (from? : Option NbrRef) (a : Addr) (on : NbrRef) :
    Within (Shrinks sender) (floodNeighbor from? a on : M ρ Bool) := by
  by_cases hon : on = sender
  · subst hon
    refine .bind (shrinks_of_keeps (keeps_theNeighbor on)) fun n => .ite (.pure _) ?_
    refine .bind (.ite (shrinks_examineRequest a) (.pure _)) fun goOn => .ite (.pure _) (shrinks_of_keeps ?_)
    refine .bind (keeps_modifyInfo a fun _ => rfl) fun _ => .bind (keeps_lsaCopy a) fun copy => ?_
    refine .bind (keeps_lsdbAdd copy (by simp)) fun _ => .bind (.when ?_) fun _ => .pure _
    exact .bind (keeps_threadAddTimer _) fun _ => keeps_modifyNeighbor on (fun _ => rfl) fun _ _ => rfl
  · exact shrinks_of_keeps (keeps_floodNeighbor from? a hon)

theorem shrinks_floodNeighbors (from? : Option NbrRef) (a : Addr) (ons : List NbrRef) (n : Int) :
    Within (Shrinks sender) (floodNeighbors from? a ons n : M ρ Int) := by
  induction ons generalizing n with
  | nil => exact .pure _
  | cons on ons ih => exact .bind (shrinks_floodNeighbor from? a on) fun _ => ih _

theorem shrinks_floodInterface (from? : Option NbrRef) (a : Addr) (oi : Nat) :
    Within (Shrinks sender) (floodInterface from? a oi : M ρ Unit) := by
  refine .bind (shrinks_of_keeps (keeps_theInterface oi)) fun i => .bind .observe fun s => ?_
  refine .bind (shrinks_floodNeighbors from? a _ _) fun n => .ite (.pure _) <| .ite (.pure _) <| .ite (.pure _) ?_
  exact shrinks_of_keeps (keeps_floodInterface_rest a oi i)

theorem shrinks_floodArea (from? : Option NbrRef) (a : Addr) (oa : Nat) :
    Within (Shrinks sender) (floodArea from? a oa : M ρ Unit) :=
  .bind (shrinks_of_keeps (keeps_info a)) fun _ => .bind (shrinks_of_keeps (keeps_theArea oa)) fun _ =>
    .forM fun oi _ => .ite (.pure _) (shrinks_floodInterface from? a oi)

end Turn

section Reaches

variable {sender : NbrRef} {new req : Addr} {x y : State ρ × Mem} {c : Int}

/-- An LSA that answers a request to its sender, who is in Exchange or Loading. -/
structure Answer (sender : NbrRef) (new req : Addr) (x : State ρ × Mem) : Prop where
  new_lt : new < x.2.heap.length
  requests : ∀ a ∈ x.1.requests sender, a < x.2.heap.length
  nodup : (x.1.requests sender).Nodup
  entry : copyOf x (.neighbor sender .requestList) (x.2.lsa new).header.key = some req
  ne : new ≠ req
  holds : ∃ n, x.1.Holds sender n ∧ (n.state = .exchange ∨ n.state = .loading)

/-- Whenever they are compared the outcome is the same, and the entry is not more recent. -/
structure Steady (new req : Addr) (c : Int) (x : State ρ × Mem) : Prop where
  le : c ≤ 0
  eq : ∀ i j, compareAt (x.2.lsa new) (x.2.lsa req) (x.2.clock i) (x.2.clock j) = c

theorem Answer.mem (h : Answer sender new req x) : req ∈ x.1.requests sender :=
  List.mem_of_find?_eq_some h.entry

theorem Answer.key (h : Answer sender new req x) : (x.2.lsa new).header.key = (x.2.lsa req).header.key := by
  have hreq := List.find?_some h.entry
  exact (header_of_key (by simpa using hreq)).symm

theorem Keeps.key (h : Keeps sender x y) {a : Addr} (ha : a < x.2.heap.length) : y.2.key a = x.2.key a := by
  rw [Mem.key, Mem.key, if_pos ha, if_pos (ha.trans_le h.length), h.header a ha]

/-- The sender is looked up among the same neighbors, and has its state. -/
theorem Keeps.holds (h : Keeps sender x y) {n : Neighbor} (hn : x.1.Holds sender n) :
    ∃ n', y.1.Holds sender n' ∧ n'.state = n.state := by
  have hat : (y.1.neighborAt sender).state = n.state := by
    rw [← hn.neighborAt_eq]
    exact congrArg Kept.state h.kept
  obtain ⟨i, hi, hlook⟩ := Option.bind_eq_some_iff.mp hn
  have hids := congrArg (fun k : Kept => k.neighbors[sender.oi]?) h.kept
  simp only [State.kept, List.getElem?_map, hi, Option.map_some] at hids
  obtain ⟨i', hi', hids⟩ := Option.map_eq_some_iff.mp hids
  have hmem : sender.routerId ∈ i'.neighborList.map fun n => n.routerId := by
    rw [hids]
    exact List.mem_map.mpr ⟨n, List.mem_of_find?_eq_some hlook, by simpa using List.find?_some hlook⟩
  obtain ⟨n₁, hn₁, heq⟩ := List.mem_map.mp hmem
  obtain ⟨n', hn'⟩ := Option.isSome_iff_exists.mp
    (List.find?_isSome.mpr ⟨n₁, hn₁, by simpa using heq⟩ :
      (i'.neighborList.find? fun n => n.routerId == sender.routerId).isSome = true)
  have hholds : y.1.Holds sender n' := by
    show y.1.interfaces[sender.oi]?.bind _ = _
    rw [hi', Option.bind_some]
    exact hn'
  exact ⟨n', hholds, by rw [← hat, hholds.neighborAt_eq]⟩

theorem Keeps.refreshes {s : State ρ} {m m' : Mem} (h : Refreshes m m') : Keeps sender (s, m) (s, m') := by
  induction h with
  | refl => exact Frame.refl _
  | step a _ ih => exact Frame.trans ih (keeps_ageCurrent a s _)

theorem compareAt_congr {a b a' b' : Lsa} {t u t' u' : Timeval} (ha : a'.header = a.header) (hb : b'.header = b.header)
    (hage : a'.ageAt t' = a.ageAt t) (hage' : b'.ageAt u' = b.ageAt u) : compareAt a' b' t' u' = compareAt a b t u := by
  unfold compareAt
  rw [ha, hb, hage, hage']

theorem Answer.req_lt (h : Answer sender new req x) : req < x.2.heap.length := h.requests req h.mem

/-- What stays leads to the same comparison. -/
theorem Steady.compare (hs : Steady new req c x) (ha : Answer sender new req x) (h : Keeps sender x y) :
    (lsaCompare new req : M ρ Int) y.1 y.2 = (c, y.1, y.2.compared new req) ∧
      Keeps sender x (y.1, y.2.compared new req) := by
  have hkey : (y.2.lsa new).header.key = (y.2.lsa req).header.key := by
    rw [h.header new ha.new_lt, h.header req ha.req_lt, ha.key]
  refine ⟨?_, Frame.trans h (.refreshes (refreshes_compared y.2 new req))⟩
  obtain ⟨i, hi⟩ := h.shown new ha.new_lt 0
  obtain ⟨j, hj⟩ := h.shown req ha.req_lt 1
  rw [lsaCompare_run hkey ha.ne,
    (compareAt_congr (h.header new ha.new_lt) (h.header req ha.req_lt) hi hj).trans (hs.eq i j)]

theorem Keeps.entry (h : Keeps sender x y) (ha : Answer sender new req x) :
    copyOf y (.neighbor sender .requestList) (x.2.lsa new).header.key = some req := by
  rw [← ha.entry]
  show (y.1.requests sender).find? _ = (x.1.requests sender).find? _
  rw [h.requests]
  exact find?_congr fun a hmem => by rw [h.key (ha.requests a hmem)]

/-- (b) of `ospf6_flood_interface` about an entry that has been found. -/
def examineEntry (a : Addr) (on : NbrRef) (req : Addr) : M ρ Bool := do
  let older ← lsaCompare a req
  if 0 < older then pure false
  else do
    let same ← lsaCompare a req
    if same = 0 then do
      lsdbRemove req (.neighbor on .requestList)
      pure false
    else do
      let newer ← lsaCompare a req
      when (newer < 0) (lsdbRemove req (.neighbor on .requestList))
      pure true

/-- The entry is taken off the list in the turn of the sender. -/
theorem examineRequest_removes (ha : Answer sender new req x) (hs : Steady new req c x) (h : Keeps sender x y) :
    req ∉ State.requests sender ((examineRequest new sender : M ρ Bool) y.1 y.2).2.1 := by
  obtain ⟨hone, hkeeps⟩ := hs.compare ha h
  obtain ⟨htwo, hkeeps'⟩ := hs.compare ha hkeeps
  obtain ⟨hthree, -⟩ := hs.compare ha hkeeps'
  have hinfo : (info new : M ρ LsaInfo) y.1 y.2 = ((y.2.lsa new).toLsaInfo, y.1, y.2) := rfl
  have hentry := h.entry ha
  have hlook : (lsdbLookup (y.2.lsa new).toLsaInfo.header.key (some (.neighbor sender .requestList)) : M ρ (Option Addr))
      y.1 y.2 = (some req, y.1, y.2) := by
    rw [h.header new ha.new_lt]
    show (copyOf y (.neighbor sender .requestList) _, y.1, y.2) = _
    rw [hentry]
  have hgone : ∀ m : Mem, req ∉ State.requests sender
      ((lsdbRemove req (.neighbor sender .requestList) : M ρ Unit) y.1 m).2.1 := by
    intro m
    rw [lsdbRemove_requests, h.requests]
    exact ha.nodup.not_mem_erase
  have hfound : (examineRequest new sender : M ρ Bool) y.1 y.2 = examineEntry new sender req y.1 y.2 := by
    unfold examineRequest
    rw [Prog.run_bind hinfo, Prog.run_bind hlook]
    rfl
  dsimp only at htwo hthree
  rw [hfound]
  unfold examineEntry
  rw [Prog.run_bind hone, if_neg (not_lt.mpr hs.le), Prog.run_bind htwo]
  by_cases hc : c = 0
  · rw [if_pos hc]
    exact hgone _
  · rw [if_neg hc, Prog.run_bind hthree]
    have hlt : c < 0 := lt_of_le_of_ne hs.le hc
    unfold when
    rw [if_pos hlt]
    exact hgone _

/-- The interface of the sender is in the list of its own area and in no other. -/
structure Wired (sender : NbrRef) (s : State ρ) : Prop where
  area : (s.interfaceAt sender.oi).area < s.areaList.length
  inside : ∀ oa a, s.areaList[oa]? = some a → (sender.oi ∈ a.ifList ↔ oa = (s.interfaceAt sender.oi).area)

theorem Keeps.areaAt (h : Keeps sender x y) {oa : Nat} {a : Area} (ha : x.1.areaList[oa]? = some a) :
    ∃ a', y.1.areaList[oa]? = some a' ∧ a'.ifList = a.ifList ∧ a'.stub = a.stub := by
  have hareas := congrArg (fun k : Kept => k.areas[oa]?) h.kept
  simp only [State.kept, List.getElem?_map, ha, Option.map_some] at hareas
  obtain ⟨a', ha', heq⟩ := Option.map_eq_some_iff.mp hareas
  exact ⟨a', ha', congrArg Prod.fst heq, congrArg Prod.snd heq⟩

theorem theArea_run {s : State ρ} {oa : Nat} {a : Area} (h : s.areaList[oa]? = some a) (m : Mem) :
    (theArea oa : M ρ Area) s m = (a, s, m) := by
  simp only [theArea, bind, observe, h]
  rfl

theorem theInterface_run {s : State ρ} {oi : Nat} {i : Interface} (h : s.interfaces[oi]? = some i) (m : Mem) :
    (theInterface oi : M ρ Interface) s m = (i, s, m) := by
  simp only [theInterface, bind, observe, h]
  rfl

theorem info_run (a : Addr) (s : State ρ) (m : Mem) : (info a : M ρ LsaInfo) s m = ((m.lsa a).toLsaInfo, s, m) := rfl

variable [RouteCalc ρ]

theorem floodNeighbor_removes (ha : Answer sender new req x) (hs : Steady new req c x) (h : Keeps sender x y) :
    req ∉ State.requests sender ((floodNeighbor (some sender) new sender : M ρ Bool) y.1 y.2).2.1 := by
  obtain ⟨n, hn, hstate⟩ := ha.holds
  obtain ⟨n', hn', heq⟩ := h.holds hn
  have hexamine : n'.state ≠ .full ∧ ¬ n'.state < .exchange := by
    rw [heq]
    obtain hstate | hstate := hstate <;> rw [hstate] <;> decide
  unfold floodNeighbor
  rw [Prog.run_bind (theNeighbor_run hn' y.2), if_neg hexamine.2, if_pos hexamine.1]
  have hgone := examineRequest_removes ha hs h
  generalize hrun : (examineRequest new sender : M ρ Bool) y.1 y.2 = r at hgone
  obtain ⟨goOn, q, m⟩ := r
  rw [Prog.run_bind hrun, if_pos (.inr rfl)]
  exact hgone

theorem floodNeighbors_removes (ha : Answer sender new req x) (hs : Steady new req c x) (h : Keeps sender x y)
    {ons : List NbrRef} (hmem : sender ∈ ons) (n : Int) :
    req ∉ State.requests sender ((floodNeighbors (some sender) new ons n : M ρ Int) y.1 y.2).2.1 := by
  induction ons generalizing y n with
  | nil => exact absurd hmem List.not_mem_nil
  | cons on ons ih =>
      by_cases hon : on = sender
      · subst hon
        exact fun hreq => floodNeighbor_removes ha hs h (shrinks_floodNeighbors (some on) new ons _ _ _ req hreq)
      · have hons : sender ∈ ons := (List.mem_cons.mp hmem).resolve_left fun heq => hon heq.symm
        exact ih (Frame.trans h (keeps_floodNeighbor (some sender) new hon y.1 y.2)) hons _

theorem floodInterface_removes (ha : Answer sender new req x) (hs : Steady new req c x) (h : Keeps sender x y) :
    req ∉ State.requests sender ((floodInterface (some sender) new sender.oi : M ρ Unit) y.1 y.2).2.1 := by
  obtain ⟨n, hn, -⟩ := ha.holds
  obtain ⟨n', hn', -⟩ := h.holds hn
  obtain ⟨i, hi, hlook⟩ := Option.bind_eq_some_iff.mp hn'
  have hmem : sender ∈ i.neighborList.map fun n => (⟨sender.oi, n.routerId⟩ : NbrRef) := by
    refine List.mem_map.mpr ⟨n', List.mem_of_find?_eq_some hlook, ?_⟩
    have hid : n'.routerId = sender.routerId := by simpa using List.find?_some hlook
    rw [hid]
  unfold floodInterface
  rw [Prog.run_bind (theInterface_run hi y.2)]
  have hobserve : (Prog.observe : M ρ (State ρ)) y.1 y.2 = (y.1, y.1, y.2) := rfl
  rw [Prog.run_bind hobserve]
  have hgone := floodNeighbors_removes ha hs h hmem y.1.outside.retransAdded
  generalize hrun : (floodNeighbors (some sender) new (i.neighborList.map fun n => (⟨sender.oi, n.routerId⟩ : NbrRef))
    y.1.outside.retransAdded : M ρ Int) y.1 y.2 = r at hgone
  obtain ⟨added, q, m⟩ := r
  rw [Prog.run_bind hrun]
  refine fun hreq => hgone (Within.ite (R := Shrinks sender) (.pure _) ?_ q m req hreq)
  exact .ite (.pure _) <| .ite (.pure _) (shrinks_of_keeps (keeps_floodInterface_rest new sender.oi i))

/-- Another area. -/
theorem floodArea_keeps (h : Keeps sender x y) (hw : Wired sender x.1) {oa : Nat} (hin : oa < x.1.areaList.length)
    (hoa : oa ≠ (x.1.interfaceAt sender.oi).area) (from? : Option NbrRef) :
    Keeps sender x (floodArea from? new oa y.1 y.2 : Unit × State ρ × Mem).2 := by
  obtain ⟨a, ha, hlist, -⟩ := h.areaAt (List.getElem?_eq_getElem hin)
  unfold floodArea
  rw [Prog.run_bind (info_run new y.1 y.2), Prog.run_bind (theArea_run ha y.2)]
  refine Frame.trans h (Within.forM (R := Keeps sender) (fun oi hoi => .ite (.pure _) ?_) y.1 y.2)
  refine keeps_floodInterface from? new fun heq => hoa ?_
  rw [heq, hlist] at hoi
  exact (hw.inside oa _ (List.getElem?_eq_getElem hin)).mp hoi

/-- The LSA is to go into the database of its scope. -/
def Placed (sender : NbrRef) (new : Addr) (x : State ρ × Mem) : Prop :=
  ∃ d, (x.2.lsa new).lsdb = some d ∧ x.1.lsdbFor sender (x.2.lsa new).header.type = some d

theorem floodArea_removes (ha : Answer sender new req x) (hs : Steady new req c x) (hw : Wired sender x.1)
    (hp : Placed sender new x) (h : Keeps sender x y) :
    req ∉ State.requests sender
      ((floodArea (some sender) new (x.1.interfaceAt sender.oi).area : M ρ Unit) y.1 y.2).2.1 := by
  obtain ⟨a, hat, hlist, -⟩ := h.areaAt (List.getElem?_eq_getElem hw.area)
  obtain ⟨d, hd, hfor⟩ := hp
  have hmem : sender.oi ∈ a.ifList := by
    rw [hlist]
    exact (hw.inside _ _ (List.getElem?_eq_getElem hw.area)).mpr rfl
  have hlocal : ¬ (lsaScope (y.2.lsa new).toLsaInfo.header.type = .linklocal ∧
      (y.2.lsa new).toLsaInfo.lsdb ≠ some (.interface sender.oi)) := by
    rw [h.header new ha.new_lt, h.lsdb new ha.new_lt, hd]
    rintro ⟨hscope, hne⟩
    unfold State.lsdbFor at hfor
    rw [hscope] at hfor
    exact hne hfor.symm
  unfold floodArea
  rw [Prog.run_bind (info_run new y.1 y.2), Prog.run_bind (theArea_run hat y.2)]
  refine forM_reaches (I := Keeps sender x) (Q := fun y => req ∉ y.1.requests sender) hmem (fun oi _ hoi y hy => ?_)
    (fun y hy => ?_) (fun oi _ y hgone hreq => hgone ?_) h
  · exact Frame.trans hy (Within.ite (R := Keeps sender) (.pure _) (keeps_floodInterface _ new hoi) y.1 y.2)
  · rw [if_neg hlocal]
    exact floodInterface_removes ha hs hy
  · exact Within.ite (R := Shrinks sender) (.pure _) (shrinks_floodInterface _ new oi) y.1 y.2 req hreq

/-- A turn of an area in `ospf6_flood`, for an LSA with this information. -/
def floodTurn (sender : Option NbrRef) (a : Addr) (l : LsaInfo) (s : State ρ) (oa : Nat) : M ρ Unit := do
  let area ← theArea oa
  let scope := lsaScope l.header.type
  if (scope = .area ∨ scope = .linklocal) ∧ areaOf s l.lsdb ≠ some oa then pure ()
  else if l.header.type = lstypeAsExternal ∧ area.stub = true then pure ()
  else floodArea sender a oa

theorem flood_run (from? : Option NbrRef) (a : Addr) (s : State ρ) (m : Mem) : (flood from? a : M ρ Unit) s m =
    ((List.range s.areaList.length).forM (floodTurn from? a (m.lsa a).toLsaInfo s) : M ρ Unit) s m := rfl

/-- The turn of another area leaves the requests to the sender alone. -/
theorem floodTurn_keeps (h : Keeps sender x y) (hw : Wired sender x.1) {oa : Nat} (hin : oa < x.1.areaList.length)
    (hoa : oa ≠ (x.1.interfaceAt sender.oi).area) (from? : Option NbrRef) (l : LsaInfo) (s : State ρ) :
    Keeps sender x (floodTurn from? new l s oa y.1 y.2 : Unit × State ρ × Mem).2 := by
  obtain ⟨a, ha, -, -⟩ := h.areaAt (List.getElem?_eq_getElem hin)
  unfold floodTurn
  rw [Prog.run_bind (theArea_run ha y.2)]
  split_ifs
  · exact h
  · exact h
  · exact floodArea_keeps h hw hin hoa from?

theorem shrinks_floodTurn (from? : Option NbrRef) (a : Addr) (l : LsaInfo) (s : State ρ) (oa : Nat) :
    Within (Shrinks sender) (floodTurn from? a l s oa : M ρ Unit) :=
  .bind (shrinks_of_keeps (keeps_theArea oa)) fun _ => .ite (.pure _) <| .ite (.pure _) (shrinks_floodArea from? a oa)

/-- An AS-External-LSA is not flooded in a stub area. -/
def InStub (sender : NbrRef) (type : UInt16) (s : State ρ) : Prop :=
  type = lstypeAsExternal ∧ (s.areaList.getD (s.interfaceAt sender.oi).area default).stub = true

omit [RouteCalc ρ] in
/-- The database of an LSA of link-local or area scope is in the area of its sender. -/
theorem areaOf_placed {s : State ρ} {n : Neighbor} (hn : s.Holds sender n) {type : UInt16} {d : Lsdb}
    (hfor : s.lsdbFor sender type = some d) (hscope : lsaScope type = .area ∨ lsaScope type = .linklocal) :
    areaOf s (some d) = some (s.interfaceAt sender.oi).area := by
  obtain ⟨i, hi, -⟩ := Option.bind_eq_some_iff.mp hn
  have hat : s.interfaceAt sender.oi = i := by
    rw [State.interfaceAt, List.getD_eq_getElem?_getD, hi, Option.getD_some]
  unfold State.lsdbFor at hfor
  rw [hat]
  obtain hscope | hscope := hscope
  · rw [hscope, hi] at hfor
    obtain rfl := Option.some.inj hfor
    rfl
  · rw [hscope] at hfor
    obtain rfl := Option.some.inj hfor
    show (s.interfaces[sender.oi]?).map (·.area) = some i.area
    rw [hi, Option.map_some]

/-- The LSA is flooded in the area of its sender. -/
theorem flood_removes (ha : Answer sender new req x) (hs : Steady new req c x) (hw : Wired sender x.1)
    (hp : Placed sender new x) (hstub : ¬ InStub sender (x.2.lsa new).header.type x.1) {m : Mem}
    (h : Keeps sender x (x.1, m)) : req ∉ State.requests sender ((flood (some sender) new : M ρ Unit) x.1 m).2.1 := by
  obtain ⟨d, hd, hfor⟩ := hp
  obtain ⟨n, hn, -⟩ := ha.holds
  have hheader : (m.lsa new).header = (x.2.lsa new).header := h.header new ha.new_lt
  have hlsdb : (m.lsa new).lsdb = (x.2.lsa new).lsdb := h.lsdb new ha.new_lt
  rw [flood_run]
  refine forM_reaches (I := Keeps sender x) (Q := fun y => req ∉ y.1.requests sender) (y := (x.1, m))
    (List.mem_range.mpr hw.area) (fun oa hoa hne z hz => ?_) (fun z hz => ?_)
    (fun oa _ z hgone hreq => hgone (shrinks_floodTurn _ new _ _ oa z.1 z.2 req hreq)) h
  · exact floodTurn_keeps hz hw (List.mem_range.mp hoa) hne _ _ _
  · obtain ⟨a, hat, -, hst⟩ := hz.areaAt (List.getElem?_eq_getElem hw.area)
    have hscope : ¬ ((lsaScope (m.lsa new).toLsaInfo.header.type = .area ∨
        lsaScope (m.lsa new).toLsaInfo.header.type = .linklocal) ∧
          areaOf x.1 (m.lsa new).toLsaInfo.lsdb ≠ some (x.1.interfaceAt sender.oi).area) := by
      rw [hheader, hlsdb, hd]
      exact fun hne => hne.2 (areaOf_placed hn hfor hne.1)
    have hst' : ¬ ((m.lsa new).toLsaInfo.header.type = lstypeAsExternal ∧ a.stub = true) := by
      rw [hheader, hst]
      rintro ⟨htype, hstub'⟩
      refine hstub ⟨htype, ?_⟩
      rw [List.getD_eq_getElem?_getD, List.getElem?_eq_getElem hw.area]
      exact hstub'
    unfold floodTurn
    rw [Prog.run_bind (theArea_run hat z.2), if_neg hscope, if_neg hst']
    exact floodArea_removes ha hs hw ⟨d, hd, hfor⟩ hz

/-- Where the area of its sender is a stub, an AS-External-LSA leaves the requests to the sender alone. -/
theorem flood_keeps (hw : Wired sender x.1) (hlt : new < x.2.heap.length)
    (hstub : InStub sender (x.2.lsa new).header.type x.1) {m : Mem} (h : Keeps sender x (x.1, m)) :
    Keeps sender x (flood (some sender) new x.1 m : Unit × State ρ × Mem).2 := by
  have hheader : (m.lsa new).header = (x.2.lsa new).header := h.header new hlt
  rw [flood_run]
  refine forM_invariant (I := Keeps sender x) (y := (x.1, m)) (fun oa hoa y hy => ?_) h
  have hin := List.mem_range.mp hoa
  by_cases hown : oa = (x.1.interfaceAt sender.oi).area
  · obtain ⟨a, hat, -, hst⟩ := hy.areaAt (List.getElem?_eq_getElem hin)
    have hst' : (m.lsa new).toLsaInfo.header.type = lstypeAsExternal ∧ a.stub = true := by
      refine ⟨hheader ▸ hstub.1, ?_⟩
      have hstub' := hstub.2
      rw [← hown, List.getD_eq_getElem?_getD, List.getElem?_eq_getElem hin] at hstub'
      exact hst.trans hstub'
    unfold floodTurn
    rw [Prog.run_bind (theArea_run hat y.2), if_pos hst', ite_self]
    exact hy
  · exact floodTurn_keeps hy hw hin hown _ _ _

/-- `ospf6_install_lsa` in a database with a scope. -/
theorem installLsa_keeps {s : State ρ} {m : Mem} {d : Lsdb} (hlsdb : (m.lsa new).lsdb = some d) (hd : d.Scoped) :
    Keeps sender (s, m) (installLsa new s m : Unit × State ρ × Mem).2 := by
  have hrun : (installLsa new : M ρ Unit) s m = (stampInstalled new >>= fun _ => addTo (m.lsa new).lsdb new) s m := rfl
  rw [hrun, hlsdb]
  refine keeps_installLsa new d (fun heq => ?_) s m
  rw [heq] at hd
  exact hd

end Reaches

end Harry.Sibling
