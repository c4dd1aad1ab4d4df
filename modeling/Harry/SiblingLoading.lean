import Harry.SiblingExchange

/-! The neighbor state machine over whole runs. A neighbor gets to Full only with no requests left, and a negotiation that
opens an exchange leaves nothing of the one before it. The events `exchange_done` and `loading_done` are pending for a
while, in whatever order they were added; the assertion of `loading_done` holds as long as `exchange_done` does not find
requests while `loading_done` is pending already. -/

namespace Harry.Sibling

open Harry.Base Harry.Rfp Prog

variable {ρ : Type}

/-- Nothing is requested of a neighbor in Full, nor of one in Loading while `loading_done` is pending. -/
structure Requested (on : NbrRef) (e : Exchange) (ev ti : List Thread) : Prop where
  full : e.state = .full → e.requestList = []
  loading : e.state = .loading → .loadingDone on ∈ ev → e.requestList = []

section Requested

variable {on : NbrRef} {e e' : Exchange} {ev ev' ti ti' : List Thread}

/-- The neighbor is in another state, or requests no more than before. -/
theorem Requested.move (h : Requested on e ev ti)
    (he : e'.state ≠ .full ∧ e'.state ≠ .loading ∨ e'.state = e.state ∧ (e.requestList = [] → e'.requestList = [])) :
    Requested on e' ev ti' := by
  obtain ⟨hfull, hloading⟩ | ⟨hstate, hlist⟩ := he
  · exact ⟨fun hst => absurd hst hfull, fun hst => absurd hst hloading⟩
  · exact ⟨fun hst => hlist (h.full (hstate.symm.trans hst)),
    fun hst hmem => hlist (h.loading (hstate.symm.trans hst) hmem)⟩

/-- Other events are pending. -/
theorem Requested.pend (h : Requested on e ev ti) (hev : .loadingDone on ∈ ev' → .loadingDone on ∈ ev) :
    Requested on e ev' ti' := ⟨h.full, fun hst hmem => h.loading hst (hev hmem)⟩

theorem Requested.push (h : Requested on e ev ti) {t : Thread} (ht : t ≠ .loadingDone on) :
    Requested on e (ev ++ [t]) ti' := by
  refine h.pend fun hmem => ?_
  obtain hmem | hmem := List.mem_append.mp hmem
  · exact hmem
  · exact absurd (List.mem_singleton.mp hmem).symm ht

end Requested

theorem stable_requested : Stable Requested where
  event ht h := h.push (by rintro rfl; exact ht)
  timer _ h := h.pend id
  offEvent _ h := h.pend List.mem_of_mem_erase
  offTimer _ h := h.pend id
  badLsreq _ h := h.push nofun
  list {_ _ _ _ list} _ hlist h := by
    cases list with
    | summaryList | requestList | dbdescList => exact (hlist.elim id nofun).elim
    | _ => exact h.move (.inr ⟨rfl, id⟩)
  unrequest {on n ev ti} a h := h.move (.inr ⟨rfl, fun hnil => by
    have hrequests : n.requestList = [] := hnil
    show n.requestList.erase a = []
    rw [hrequests, List.erase_nil]⟩)

section Keeps

variable {on : NbrRef}

/-- A change that leaves the requests, or takes the neighbor out of Loading and Full. -/
theorem requested_modifyNeighbor {f : Neighbor → Neighbor}
    (hfiled : Within (Keeping Filed) (modifyNeighbor on f : M ρ Unit))
    (hid : ∀ n, (f n).routerId = n.routerId)
    (hf : ∀ n, (f n).state ≠ .full ∧ (f n).state ≠ .loading ∨ (f n).state = n.state ∧ (f n).requestList = n.requestList) :
    Within (Keeping (Meets Requested)) (modifyNeighbor on f : M ρ Unit) := by
  refine within_meets hfiled (each_modifyNeighbor hid fun n ev ti h => h.move ?_)
  exact (hf n).imp id fun hsame => ⟨hsame.1, fun hnil => hsame.2.trans hnil⟩

theorem requested_put {list : NbrList} (hlist : list ≠ .requestList) (as : List Addr) :
    Within (Keeping (Each Requested)) ((Lsdb.neighbor on list).put as : M ρ Unit) := by
  refine each_modifyNeighbor (fun n => routerId_setList n as list) fun n ev ti h => ?_
  cases list with
  | requestList => exact absurd rfl hlist
  | _ => exact h.move (.inr ⟨rfl, id⟩)

theorem requested_event {t : Thread} (ht : ∀ on, t ≠ .loadingDone on) :
    Within (Keeping (Meets Requested)) (threadAddEvent t : M ρ Unit) := by
  refine within_meets (filed_of_state (fun _ _ h => h) fun _ => rfl) fun s m h =>
    h.threads _ (fun _ ht => .inl ht) fun on' e hQ => hQ.push (ht on')

theorem requested_met (oi : Nat) (frame : List UInt8) (ev ti : List Thread) :
    Requested ⟨oi, u32At frame 4⟩ (Neighbor.met frame).exchange ev ti where
  full hstate := nomatch show NeighborState.down = .full from hstate
  loading hstate := nomatch show NeighborState.down = .loading from hstate

variable [RouteCalc ρ]

theorem adjoins_requested : Adjoins (Keeping (Meets (ρ := ρ) Requested)) where
  toReceives := receives_meets stable_requested
  lower on hst := requested_modifyNeighbor (climbs_filed.lower on hst) (fun _ => rfl) fun _ => .inl (by
    constructor
    · rintro rfl
      exact absurd hst (by decide)
    · rintro rfl
      exact absurd hst (by decide))
  dbdesc on f hf := by
    have hparts : ∀ n, (f n).routerId = n.routerId ∧ (f n).state = n.state ∧ (f n).list = n.list := fun n => by
      have h := hf n
      simp only [Neighbor.lists, Prod.mk.injEq] at h
      exact ⟨h.1, h.2.1, h.2.2⟩
    exact requested_modifyNeighbor (climbs_filed.dbdesc on hf) (fun n => (hparts n).1) fun n =>
      .inr ⟨(hparts n).2.1, congrFun (hparts n).2.2 .requestList⟩
  negotiate {t} ht := requested_event (t := t) (by rintro on rfl; exact ht)
  dbdescTimer on := within_meets (climbs_filed.dbdescTimer on) fun _ _ h => h.threads _ (fun t ht => by
    obtain ht | ht := List.mem_append.mp ht
    · exact .inl ht
    · obtain rfl := List.mem_singleton.mp ht
      exact .inr trivial) fun _ _ hQ => hQ.pend id
  summarized a on := within_meets (climbs_filed.summarized a on)
    ((plain_each stable_requested.toLasting).lsdbRemove (requested_put (by decide)) a)
  described a on := within_meets (climbs_filed.described a on)
    ((plain_each stable_requested.toLasting).lsdbRemove (requested_put (by decide)) a)
  meet oi frame s m hnone h := ⟨climbs_filed.meet oi frame s m hnone h.1, h.2.meet hnone (requested_met oi frame _ _)⟩
  forget on := within_meets (climbs_filed.forget on) fun _ _ h => h.forget on fun on' e ev ti hQ => hQ.pend fun hmem => by
    obtain ⟨t, ht, heq⟩ := List.mem_map.mp hmem
    unfold dangle at heq
    split at heq
    · cases heq
    · exact heq ▸ ht

theorem leaves_state {st : NeighborState} (h : st ≠ .full ∧ st ≠ .loading) :
    Within (Keeping (Meets Requested)) (modifyNeighbor on fun n => { n with state := st } : M ρ Unit) :=
  requested_modifyNeighbor (climbs_filed.raise st on) (fun _ => rfl) fun _ => .inl h

theorem requested_dbdescSendNewone (on : NbrRef) :
    Within (Keeping (Meets Requested)) (dbdescSendNewone on : M ρ Unit) := by
  refine adjoins_requested.dbdescSendNewone (fun a => within_meets (climbs_filed.describe a on) ?_) ?_
  · exact .bind ((plain_each stable_requested.toLasting).lsaCopy a) fun copy =>
      (plain_each stable_requested.toLasting).lsdbAdd (requested_put (by decide)) copy
  · exact requested_event nofun

theorem requested_negotiationDone (on : NbrRef) : Within (Keeping (Meets Requested)) (negotiationDone on : M ρ Unit) := by
  refine adjoins_requested.negotiationDone (fun a => within_meets (climbs_filed.summarize on a) ?_)
    (leaves_state (by decide))
  have hplain := plain_each (ρ := ρ) stable_requested.toLasting
  refine .bind (hplain.isMaxage a) fun gone => .ite (.bind (each_of_state fun _ _ => rfl) fun _ => ?_) ?_
  · exact .bind (hplain.lsaCopy a) fun copy => hplain.lsdbAdd (requested_put (by decide)) copy
  · exact .bind (hplain.lsaCopy a) fun copy => hplain.lsdbAdd (requested_put (by decide)) copy

/-- In Exchange anything may be requested. -/
theorem requested_dbdescHeaderRecv (on : NbrRef) (frame : List UInt8) (off : Nat) :
    Within (Keeping (Meets (Knowing Requested on (·.state = .exchange))))
      (dbdescHeaderRecv on frame off : M ρ Unit) := by
  refine within_meets (climbs_filed.headerRecv on frame off) ?_
  have hplain := plain_each (ρ := ρ) (stable_requested.toLasting.knowing on (·.state = .exchange))
  have hput : ∀ as, Within (Keeping (Each (Knowing Requested on (·.state = .exchange))))
      ((Lsdb.neighbor on .requestList).put as : M ρ Unit) := fun as =>
    each_modifyNeighbor (fun n => routerId_setList n as .requestList) fun n ev ti h => by
      have hstate : n.state = .exchange := h.2 rfl
      have hstate' : (n.setList as .requestList).exchange.state = .exchange := hstate
      exact ⟨⟨fun hfull => (by cases hstate'.symm.trans hfull), fun hloading => (by cases hstate'.symm.trans hloading)⟩,
        fun _ => hstate'⟩
  refine .bind (each_of_state fun _ _ => rfl) fun his => .bind ?_ fun lsdb => .bind (Plain.lsdbLookup _ _) fun mine => ?_
  · unfold dbdescLsdb
    cases lsaScope (lsaHeaderAt frame off).type with
    | reserved => exact .bind hplain.fail fun _ => .pure _
    | _ => exact .pure _
  · cases mine with
    | none => exact hplain.lsdbAdd hput his
    | some mine => exact .bind (hplain.lsaCompare his mine) fun _ => .ite (hplain.lsdbAdd hput his) (.pure _)

theorem requested_dbdescSchedule (on : NbrRef) (frame : List UInt8) :
    Within (Keeping (Meets Requested)) (dbdescSchedule on frame : M ρ Unit) := by
  have h := adjoins_requested (ρ := ρ)
  refine .bind (h.assert _) fun _ => .bind (h.setSeqnum on _) fun _ => .bind (h.theNeighbor on) fun n =>
    .bind (.when ?_) fun _ => ?_
  · exact .bind (h.event trivial) fun _ => h.neighbor on fun _ => rfl
  · exact .bind (h.rescheduleDbdesc on trivial) fun _ => h.dbdesc on fun _ => rfl

/-- The first DbDesc of a negotiation has no headers. -/
theorem requested_dbdescRecvExstart (on : NbrRef) (frame : List UInt8) :
    Within (Keeping (Meets Requested)) (dbdescRecvExstart on frame : M ρ Unit) := by
  have h := adjoins_requested (ρ := ρ)
  refine .bind (h.assert _) fun _ => ?_
  by_cases hbits : (checkFlag (u8At frame 23) dbdescIbit && checkFlag (u8At frame 23) dbdescMbit &&
      checkFlag (u8At frame 23) dbdescMsbit && ospf6Length frame == 28) = true
  · have hlength : ospf6Length frame = 28 := by
      simp only [Bool.and_eq_true, beq_iff_eq] at hbits
      exact hbits.2
    have hnone : entriesInside frame 28 20 = [] := by
      rw [entriesInside, entryOffsets, hlength]
      rfl
    dsimp only
    rw [if_pos hbits]
    refine .bind (h.assert _) fun _ => .bind (h.dbdesc on fun _ => rfl) fun _ =>
      .bind (requested_negotiationDone on) fun _ => ?_
    refine .bind (h.dbdesc on fun _ => rfl) fun _ => h.dbdescAccept fun off hoff => ?_
    rw [hnone] at hoff
    exact absurd hoff List.not_mem_nil
  · dsimp only
    rw [if_neg hbits]
    exact .pure _

/-- A DbDesc in Exchange adds to the requests. -/
theorem requested_dbdescRecvExchange (on : NbrRef) (n : Neighbor) (frame : List UInt8) :
    Leads (Meets (Knowing Requested on (·.state = .exchange))) (Meets Requested)
      (dbdescRecvExchange on n frame : M ρ Unit) := by
  have h := adjoins_requested (ρ := ρ)
  have hmismatch : Within (Keeping (Meets Requested)) (threadAddEvent (.seqnumberMismatch on) : M ρ Unit) :=
    h.negotiate trivial
  refine .bind ((plain_meets (stable_requested.toLasting.knowing on (·.state = .exchange))).assert _) fun _ => ?_
  refine .ite (leads_of_within (h.rescheduleDbdesc on trivial)) <| .ite (leads_of_within hmismatch) <|
    .ite (leads_of_within hmismatch) <| .ite (leads_of_within hmismatch) <| .ite (leads_of_within hmismatch) ?_
  rw [dbdescAccept_eq]
  exact .bind (.forM fun off _ => requested_dbdescHeaderRecv on frame off) fun _ =>
    leads_of_within (requested_dbdescSchedule on frame)

theorem requested_dbdescRecvSlave (on : NbrRef) (frame : List UInt8) :
    Within (Keeping (Meets Requested)) (dbdescRecvSlave on frame : M ρ Unit) := by
  have h := adjoins_requested (ρ := ρ)
  have hmismatch : Within (Keeping (Meets Requested)) (threadAddEvent (.seqnumberMismatch on) : M ρ Unit) :=
    h.negotiate trivial
  have hagain : Within (Keeping (Meets Requested)) (rescheduleDbdesc on (.dbdescSend on) : M ρ Unit) :=
    h.rescheduleDbdesc on trivial
  refine leads_theNeighbor fun n => ?_
  cases hstate : n.state with
  | init =>
      refine leads_of_within (.bind (h.twowayReceived on) fun _ => .bind (h.theNeighbor on) fun n => ?_)
      exact .ite (requested_dbdescRecvExstart on frame) (.pure _)
  | exstart => exact leads_of_within (requested_dbdescRecvExstart on frame)
  | exchange =>
      refine (requested_dbdescRecvExchange on n frame).mono
        (fun x hx => hx.mono fun on' e ev ti hQ => ⟨hQ.1, ?_⟩) fun _ hJ => hJ
      exact fun heq => (congrArg Exchange.state (hQ.2 heq)).trans hstate
  | loading => exact leads_of_within (.bind (h.assert _) fun _ => .ite hagain hmismatch)
  | full => exact leads_of_within (.bind (h.assert _) fun _ => .ite hagain hmismatch)
  | _ => exact leads_of_within (.pure _)

/-- `loading_done` is scheduled only with no requests left. -/
theorem requested_lsreqSend (on : NbrRef) : Within (Keeping (Meets Requested)) (lsreqSend on : M ρ Unit) := by
  have h := adjoins_requested (ρ := ρ)
  refine .bind (h.theInterface on.oi) fun i => .bind (h.neighbor on fun _ => rfl) fun _ => leads_theNeighbor fun n => ?_
  refine .ite (leads_of_within (.pure _)) ?_
  by_cases hempty : n.requestList.isEmpty = true
  · rw [if_pos hempty]
    have hevent : Within (Keeping Filed) (threadAddEvent (.loadingDone on) : M ρ Unit) := (climbs_filed.done on).2
    refine fun s m hx => ⟨hevent s m hx.1, hx.2.threads _ (fun _ ht => .inl ht) fun on' e hQ => ?_⟩
    refine ⟨hQ.1.full, fun hstate hmem => ?_⟩
    obtain hmem | hmem := List.mem_append.mp hmem
    · exact hQ.1.loading hstate hmem
    · cases List.mem_singleton.mp hmem
      rw [hQ.2 rfl]
      exact List.isEmpty_iff.mp hempty
  · rw [if_neg hempty]
    refine leads_of_within (.bind (h.timer trivial) fun _ => .bind (h.neighbor on fun _ => rfl) fun _ => ?_)
    exact .bind (Plain.lsreqEntries _ _ _) fun _ => .bind (h.rfpbufAtAssert _ _ _) fun _ => h.msgSend i _ _

/-- The requests of one neighbor are what they are, none of them with `loading_done` pending. -/
def Standing (on : NbrRef) (as : List Addr) : NeighborProp := fun on' e ev ti =>
  Requested on' e ev ti ∧ (on' = on → e.requestList = as ∧ (.loadingDone on ∈ ev → as = []))

omit [RouteCalc ρ] in
theorem lasting_standing (on : NbrRef) (as : List Addr) : Lasting (Standing on as) where
  event {_ _ _ _ t} ht h := ⟨stable_requested.event ht h.1, fun heq => ⟨(h.2 heq).1, fun hmem => by
    obtain hmem | hmem := List.mem_append.mp hmem
    · exact (h.2 heq).2 hmem
    · obtain rfl := List.mem_singleton.mp hmem
      exact ht.elim⟩⟩
  timer ht h := ⟨stable_requested.timer ht h.1, h.2⟩
  offEvent t h := ⟨stable_requested.offEvent t h.1,
    fun heq => ⟨(h.2 heq).1, fun hmem => (h.2 heq).2 (List.mem_of_mem_erase hmem)⟩⟩
  offTimer t h := ⟨stable_requested.offTimer t h.1, h.2⟩

omit [RouteCalc ρ] in
/-- A change that leaves the state and the requests. -/
theorem standing_modifyNeighbor {as : List Addr} {f : Neighbor → Neighbor}
    (hfiled : Within (Keeping Filed) (modifyNeighbor on f : M ρ Unit)) (hid : ∀ n, (f n).routerId = n.routerId)
    (hf : ∀ n, (f n).state = n.state ∧ (f n).requestList = n.requestList) :
    Within (Keeping (Meets (Standing on as))) (modifyNeighbor on f : M ρ Unit) := by
  refine within_meets hfiled (each_modifyNeighbor hid fun n ev ti h => ?_)
  obtain ⟨hstate, hlist⟩ := hf n
  exact ⟨h.1.move (.inr ⟨hstate, fun hnil => hlist.trans hnil⟩), fun heq => ⟨hlist.trans (h.2 heq).1, (h.2 heq).2⟩⟩

/-- `exchange_done`, unless it finds requests while `loading_done` is pending already. -/
theorem requested_exchangeDone {s : State ρ} {m : Mem} (h : Meets Requested (s, m))
    (hearly : ∀ n, s.Holds on n → n.state = .exchange → .loadingDone on ∈ s.events → n.requestList = []) :
    Meets Requested (exchangeDone on s m).2 := by
  obtain ⟨b, hrun⟩ := theNeighbor_at on s m
  rw [exchangeDone, run_bind hrun]
  by_cases hstate : (s.neighborAt on).state ≠ .exchange
  · rw [if_pos hstate]
    exact h.fault b
  rw [if_neg hstate]
  -- from here to the change of state the requests stand
  have hstanding : Meets (Standing on (s.neighborAt on).requestList) ({ s with fault := b }, m) := by
    refine ⟨(h.fault b).1, ?_⟩
    have hknown : Each (Knowing Requested on fun e => e.requestList = (s.neighborAt on).requestList ∧
        (.loadingDone on ∈ s.events → (s.neighborAt on).requestList = [])) ({ s with fault := b }, m) := by
      refine (h.fault b).2.and_of_holds fun n hn => ?_
      have hn' : s.Holds on n := hn
      rw [hn'.neighborAt_eq] at hstate ⊢
      exact ⟨rfl, hearly n hn' (not_not.mp hstate)⟩
    exact hknown.threads m (fun _ ht => .inl ht) fun on' e hQ => hQ
  have hplain := plain_meets (ρ := ρ) (lasting_standing on (s.neighborAt on).requestList)
  refine (leads_after ?_ fun _ => leads_after ?_ fun _ => leads_after ?_ fun _ => ?_ :
    Leads (Meets (Standing on (s.neighborAt on).requestList)) (Meets Requested) _) _ _ hstanding
  · exact within_meets (climbs_filed.off _) (each_threadOff (lasting_standing on _) _)
  · exact standing_modifyNeighbor (climbs_filed.dbdesc on fun _ => rfl) (fun _ => rfl) fun _ => ⟨rfl, rfl⟩
  · have hdescribed : ∀ a, Within (Keeping (Meets (Standing on (s.neighborAt on).requestList)))
        (lsdbRemove a (.neighbor on .dbdescList) : M ρ Unit) := fun a => by
      refine within_meets (climbs_filed.described a on) ?_
      refine (plain_each (lasting_standing on _)).lsdbRemove (fun as => ?_) a
      refine each_modifyNeighbor (fun n => routerId_setList n as .dbdescList) fun n ev ti h => ?_
      exact ⟨h.1.move (.inr ⟨rfl, id⟩), h.2⟩
    exact Plain.removeAll hdescribed
  · refine leads_neighborStateChange hplain (plain_meets stable_requested.toLasting) ?_
    refine leads_modifyNeighbor (climbs_filed.raise _ on) (fun _ => rfl) (fun _ h => h.1) fun n ev ti hQ => ?_
    obtain ⟨hlist, hpending⟩ := hQ.2 rfl
    by_cases hempty : (s.neighborAt on).requestList.isEmpty = true
    · have hnil : n.requestList = [] := hlist.trans (List.isEmpty_iff.mp hempty)
      exact ⟨fun _ => hnil, fun _ _ => hnil⟩
    · rw [if_neg hempty]
      exact ⟨fun hfull => (by cases hfull), fun _ hmem => hlist.trans (hpending hmem)⟩

/-- `loading_done`, where nothing is requested. -/
theorem requested_loadingDone {s : State ρ} {m : Mem} (h : Meets Requested (s, m))
    (hnone : ∀ n, s.Holds on n → n.state = .loading → n.requestList = []) :
    Meets Requested (loadingDone on s m).2 := by
  obtain ⟨b, hrun⟩ := theNeighbor_at on s m
  rw [loadingDone, run_bind hrun]
  by_cases hstate : (s.neighborAt on).state ≠ .loading
  · rw [if_pos hstate]
    exact h.fault b
  rw [if_neg hstate]
  have hknown : Meets (Knowing Requested on fun e => e.requestList = []) ({ s with fault := b }, m) := by
    refine ⟨(h.fault b).1, (h.fault b).2.and_of_holds fun n hn => ?_⟩
    have hn' : s.Holds on n := hn
    rw [hn'.neighborAt_eq] at hstate
    exact hnone n hn' (not_not.mp hstate)
  have hplain := plain_meets (ρ := ρ) (stable_requested.toLasting.knowing on fun e => e.requestList = [])
  refine leads_after (hplain.assert _) (fun _ => ?_) _ _ hknown
  refine leads_neighborStateChange hplain (plain_meets stable_requested.toLasting) ?_
  refine leads_modifyNeighbor (climbs_filed.raise _ on) (fun _ => rfl) (fun _ h => h.1) fun n ev ti hQ => ?_
  exact ⟨fun _ => hQ.2 rfl, fun hloading => (by cases hloading)⟩

theorem requested_runThread {t : Thread} (ht : t.Timed) :
    Within (Keeping (Meets Requested)) (runThread t : M ρ Unit) := by
  refine adjoins_requested.runThread fun hlead => ?_
  cases t with
  | dbdescSendNewone on => exact requested_dbdescSendNewone on
  | lsreqSend on => exact requested_lsreqSend on
  | exchangeDone on => exact ht.elim
  | loadingDone on => exact ht.elim
  | _ => exact hlead.elim

end Keeps

/-! ### Runs -/

section Runs

variable {x y : Replica ρ} {e : Input} {on : NbrRef}

/-- The neighbor for which `exchange_done` is next. -/
def State.finishing (s : State ρ) : Option NbrRef :=
  match s.events with
  | .exchangeDone on :: _ => some on
  | _ => none

/-- The event that is next is an `exchange_done` that finds requests while `loading_done` is pending already. -/
def FinishesEarly (x : Replica ρ) (e : Input) : Prop :=
  e.event = .event ∧ ∃ on ∈ x.state.finishing, ∃ n ∈ x.state.interfaces[on.oi]?.bind (·.neighborLookup on.routerId),
    n.state = .exchange ∧ .loadingDone on ∈ x.state.events ∧ n.requestList ≠ []

instance (x : Replica ρ) (e : Input) : Decidable (FinishesEarly x e) :=
  inferInstanceAs (Decidable (_ ∧ _))

variable [RouteCalc ρ]

theorem requested_step (h : ∀ clock moves, Meets Requested (x.state, x.mem clock moves)) (hearly : ¬ FinishesEarly x e)
    (hstep : (sibling.step x e).result = some y) : ∀ clock moves, Meets Requested (y.state, y.mem clock moves) := by
  have hfiled := filed_step (fun clock moves => (h clock moves).1) hstep
  suffices hdone : Meets Requested (runTask (x.enter e).1 (x.enter e).2 (x.mem e.clock e.moves)).2 by
    obtain ⟨m, hrun, -⟩ := step_result hstep
    rw [hrun] at hdone
    exact fun clock moves => ⟨hfiled clock moves, hdone.2.nodup, hdone.2.all, hdone.2.timed⟩
  -- what a task starts from
  have hstart : ∀ ev ti : List Thread, (∀ t ∈ ev, t ∈ x.state.events) → (∀ t ∈ ti, t ∈ x.state.timers) →
      Meets Requested ({ x.state with outside := e.outside, sent := [], events := ev, timers := ti },
        x.mem e.clock e.moves) := by
    refine fun ev ti hev hti => ⟨(h e.clock e.moves).1.of_state (fun _ hrow => .inr hrow) rfl, ?_⟩
    have hthreads := (h e.clock e.moves).2.threads (x.mem e.clock e.moves) (fun t ht => .inl (hti t ht)) fun on' n hQ =>
      (hQ.pend (hev _) : Requested on' n _ _)
    exact ⟨hthreads.nodup, hthreads.all, hthreads.timed⟩
  have hentered : ∀ task s, x.enter e = (task, s) → Meets Requested (runTask task s (x.mem e.clock e.moves)).2 := by
    intro task s henter
    unfold Replica.enter fetch at henter
    cases hevent : e.event with
    | recv oi xid frame =>
        rw [hevent] at henter
        obtain ⟨rfl, rfl⟩ := Prod.mk.inj henter
        exact adjoins_requested.ospf6Receive oi xid frame (requested_dbdescRecvSlave _ frame) _ _
          (hstart _ _ (fun _ => id) fun _ => id)
    | event =>
        rw [hevent] at henter
        dsimp only at henter
        cases hevents : x.state.events with
        | nil =>
            rw [hevents] at henter
            obtain ⟨rfl, rfl⟩ := Prod.mk.inj henter
            exact hstart _ _ (fun _ ht => hevents ▸ ht) fun _ => id
        | cons t ts =>
            rw [hevents] at henter
            obtain ⟨rfl, rfl⟩ := Prod.mk.inj henter
            have hpopped := hstart ts x.state.timers
              (fun t' ht => hevents ▸ List.mem_cons_of_mem t ht) fun _ => id
            by_cases htimed : t.Timed
            · exact requested_runThread htimed _ _ hpopped
            cases t with
            | exchangeDone on =>
                refine requested_exchangeDone hpopped fun n hn hstate hmem => ?_
                refine Classical.byContradiction fun hne => hearly ⟨hevent, on, ?_, n, hn, hstate, ?_, hne⟩
                · rw [State.finishing, hevents]
                  rfl
                · exact hevents ▸ List.mem_cons_of_mem _ hmem
            | loadingDone on =>
                refine requested_loadingDone hpopped fun n hn hstate => ?_
                have hn' : x.state.Holds on n := hn
                exact ((h e.clock e.moves).2.of_holds hn').loading hstate (hevents ▸ List.mem_cons_self)
            | _ => exact absurd trivial htimed
    | timer t =>
        rw [hevent] at henter
        dsimp only at henter
        split at henter
        · next ht =>
            obtain ⟨rfl, rfl⟩ := Prod.mk.inj henter
            exact requested_runThread ((h e.clock e.moves).2.timed t ht) _ _
              (hstart _ _ (fun _ => id) fun _ => List.mem_of_mem_erase)
        · obtain ⟨rfl, rfl⟩ := Prod.mk.inj henter
          exact hstart _ _ (fun _ => id) fun _ => id
  exact hentered _ _ rfl

/-- A sibling with no neighbor yet. -/
structure Replica.Fresh (x : Replica ρ) : Prop extends x.Bare where
  alone : ∀ i ∈ x.state.interfaces, i.neighborList = []
  timers : x.state.timers = []

omit [RouteCalc ρ] in
theorem Replica.Fresh.meets (h : x.Fresh) (clock : Nat → Timeval) (moves : Nat → Int) :
    Meets Requested (x.state, x.mem clock moves) := by
  refine ⟨h.filed clock moves, fun i hi => ?_, fun oi i hi n hn => ?_, fun t ht => ?_⟩
  · rw [h.alone i hi]
    exact List.nodup_nil
  · rw [h.alone i (List.mem_of_getElem? hi)] at hn
    exact absurd hn List.not_mem_nil
  · have htimers : x.state.timers = [] := h.timers
    rw [htimers] at ht
    exact absurd ht List.not_mem_nil

theorem requested_of_run {es : List Input} (hx : x.Fresh) (hall : sibling.AllSteps (fun z e => ¬ FinishesEarly z e) x es)
    (hrun : (sibling.run x es).result = some y) (clock : Nat → Timeval) (moves : Nat → Int) :
    Meets Requested (y.state, y.mem clock moves) :=
  sibling.run_invariant_of_allSteps (P := fun z => ∀ clock moves,
    Meets Requested (z.state, z.mem clock moves)) hx.meets hall
    (fun _ _ _ hz hC hstep => requested_step hz hC hstep) hrun clock moves

/-- In a run in which no `exchange_done` finds requests while `loading_done` is pending already, no neighbor gets to Full
with requests left, and the assertion of `loading_done` holds whenever it is reached. -/
theorem full_of_run {es : List Input} (hx : x.Fresh) (hall : sibling.AllSteps (fun z e => ¬ FinishesEarly z e) x es)
    (hrun : (sibling.run x es).result = some y) {n : Neighbor} (hn : y.state.Holds on n) :
    (n.state = .full → n.requestList = []) ∧
      (n.state = .loading → .loadingDone on ∈ y.state.events → n.requestList = []) := by
  have hmet := (requested_of_run hx hall hrun (fun _ => default) fun _ => 0).2.of_holds hn
  exact ⟨hmet.full, hmet.loading⟩

theorem fresh_alone : (⟨withInterface default, []⟩ : Replica Unit).Fresh where
  toBare := bare_withInterface
  alone i hi := by
    obtain rfl := List.mem_singleton.mp hi
    rfl
  timers := rfl

theorem full_of_adjacency : ∃ x y n n',
    (sibling.run (⟨withInterface default, []⟩ : Replica Unit) (adjacency.take 8)).result = some x ∧
      x.state.Holds ⟨0, 2⟩ n ∧ n.requestList.length = 1 ∧
    (sibling.run (⟨withInterface default, []⟩ : Replica Unit) adjacency).result = some y ∧
      y.state.Holds ⟨0, 2⟩ n' ∧ n'.state = .full ∧ n'.requestList = [] := by
  have hasked : ((sibling.run (⟨withInterface default, []⟩ : Replica Unit) (adjacency.take 8)).result.bind fun x =>
      x.state.interfaces[0]?.bind (·.neighborLookup 2)).map (·.requestList.length) = some 1 := by
    decide +kernel
  have hend : ((sibling.run (⟨withInterface default, []⟩ : Replica Unit) adjacency).result.bind fun y =>
      y.state.interfaces[0]?.bind (·.neighborLookup 2)).map (·.state) = some .full := by
    decide +kernel
  have hall : sibling.AllSteps (fun z e => ¬ FinishesEarly z e)
      (⟨withInterface default, []⟩ : Replica Unit) adjacency := by
    decide +kernel
  obtain ⟨n, hn, hlength⟩ := Option.map_eq_some_iff.mp hasked
  obtain ⟨x, hx, hfirst⟩ := Option.bind_eq_some_iff.mp hn
  obtain ⟨n', hn', hfull⟩ := Option.map_eq_some_iff.mp hend
  obtain ⟨y, hy, hlast⟩ := Option.bind_eq_some_iff.mp hn'
  have hholds : y.state.Holds ⟨0, 2⟩ n' := hlast
  exact ⟨x, y, n, n', hx, hfirst, hlength, hy, hholds, hfull, (full_of_run fresh_alone hall hy hholds).1 hfull⟩

end Runs

end Harry.Sibling
