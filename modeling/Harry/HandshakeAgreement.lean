import Harry.ControllerHandshake
import Harry.VconnSend

/-! The opening of a connection between a sibling and a controller, with both ends and the two queues of messages
between them. The sibling numbers its requests itself (`current_xid` of its `ctrl_client`) and does not wait for an
answer before it sends the next one; the controller compares each with the number it keeps for the slot
(`current_egress_xid`) and says nothing if they differ. Nothing tells either end the number of the other. As long as no
vote is won they agree all the same, and the opening does not come to rest before the slot is in `SIB_ROUTING`. The
writes of this connection are whole: `vconn_stream_send` loses what it cannot write at once, and with it the place in
the stream. -/

namespace Harry.Handshake

open Harry.Base Harry.Rfp
open Harry.Controller (State SibRef SibRouterState Output SlotAt requestStep requestNext isRequest votesWon)
open Harry.Sending (VcsState)

/-- A connection. `up` has what the sibling has sent and the controller has not read, `down` the types of the messages
of the other direction. -/
structure Connection where
  controller : State
  /-- The state of the controller's `struct vconn`. -/
  vconn : VcsState
  currentXid : UInt32
  /-- How often `ctrl_client_connected` has been scheduled and not run. -/
  connectedEvents : Nat
  up : List Rfpbuf
  down : List RfpType
  deriving DecidableEq

inductive Event where
  /-- What happens at the controller other than by this connection. -/
  | controller (e : Controller.Event)
  /-- One pass of the loop in `vconn_connect`. -/
  | vconnConnect
  /-- The first call of `sib_router_run`. -/
  | sibRouterRun
  /-- A message that `rconn_recv` returns in a later call, with the byte that follows it in the receive buffer. -/
  | deliver (spare : UInt8)
  | ctrlClientRead
  | ctrlClientConnected
  | redistributeLeaderElect (leader : Bool)
  /-- `RFPT_ACK` with the transaction id of an ingress message. -/
  | ack (xid : UInt32)

/-- The type of a message to the sibling at slot `i`. `router_process_packet` has no ingress messages but
`RFPT_FORWARD_OSPF6`. -/
def receivedAt (i : Nat) : Output → Option RfpType
  | .featuresReply dst _ _ => if dst = .ospf6 i then some .featuresReply else none
  | .addressReply dst _ _ ifc =>
      if dst = .ospf6 i then
        match ifc.family with
        | .inet => some .ipv4AddressAdd
        | .inet6 => some .ipv6AddressAdd
      else none
  | .routeReply dst _ _ => if dst = .ospf6 i then some .ipv4RouteAdd else none
  | .leaderElect dst _ => if dst = i then some .leaderElect else none
  | .ingress dst _ => if dst = i then some .forwardOspf6 else none
  | _ => none

namespace Connection

variable (i : Nat) (w : Connection)

/-- An event of the controller. `rconn_send` does not get anything through before the end of `vconn_connect`. -/
def act (e : Controller.Event) : Exec Output Connection :=
  ⟨(Controller.machine.step w.controller e).outs,
    (Controller.machine.step w.controller e).result.map fun controller =>
      { w with
        controller
        down := w.down ++ if w.vconn = .connected then
            (Controller.machine.step w.controller e).outs.filterMap (receivedAt i) else [] }⟩

/-- `vcs_send_hello` and `vcs_recv_hello`. -/
def vconnConnect : Connection :=
  match w.vconn with
  | .sendHello => { w with vconn := .recvHello, down := w.down ++ [.hello] }
  | .recvHello =>
      match w.up with
      | [] => w
      | m :: up => { w with vconn := if m.type = some .hello then .connected else .disconnected, up }
  | _ => w

/-- `rconn_recv` and `sib_router_process_packet`. The first write of a reply takes all of it, and so frees it. -/
def deliver (spare : UInt8) : Exec Output Connection :=
  match w.vconn, w.up with
  | .connected, m :: up =>
      if (w.controller.sib (.ospf6 i)).any (·.state = .connecting) then pure w
      else { w with up }.act i (.recv (.ospf6 i) m ⟨fun _ => true, spare⟩)
  | _, _ => pure w

/-- `ctrl_send_message`. -/
def ctrlSendMessage (m : Rfpbuf) : Connection := { w with up := w.up ++ [m] }

/-- A request: its message, and `current_xid++`. -/
def request (type : RfpType) : Connection :=
  { w.ctrlSendMessage (.routeflowAllocXid type w.currentXid []) with currentXid := w.currentXid + 1 }

/-- `ctrl_client_read`, as far as it is about the opening. -/
def ctrlClientRead : Connection :=
  match w.down with
  | [] => w
  | .hello :: down => { w with down, connectedEvents := w.connectedEvents + 1 }
  | .featuresReply :: down => { w with down }.request .ifAddressReq
  | _ :: down => { w with down }

/-- `ctrl_client_connected`. -/
def ctrlClientConnected : Connection :=
  match w.connectedEvents with
  | 0 => w
  | n + 1 => ({ w with connectedEvents := n }.request .featuresRequest).request .redistributeRequest

/-- `ctrl_client_redistribute_leader_elect`. -/
def redistributeLeaderElect (leader : Bool) : Connection :=
  w.ctrlSendMessage (.routeflowAllocXid .redistributeLeaderElect w.currentXid [if leader then 1 else 0])

def step : Event → Exec Output Connection
  | .controller e => if e.concerns (.ospf6 i) then pure w else w.act i e
  | .vconnConnect => pure w.vconnConnect
  | .sibRouterRun => w.act i (.start (.ospf6 i))
  | .deliver spare => w.deliver i spare
  | .ctrlClientRead => pure w.ctrlClientRead
  | .ctrlClientConnected => pure w.ctrlClientConnected
  | .redistributeLeaderElect leader => pure (w.redistributeLeaderElect leader)
  | .ack xid => pure (w.ctrlSendMessage (.routeflowAllocXid .ack xid []))

end Connection

/-- The connection of slot `i`. -/
def machine (i : Nat) : Machine Connection Event Output := ⟨Connection.step i⟩

/-- After the accept and `ctrl_client_start`. -/
def opened (c : State) : Connection where
  controller := c
  vconn := .sendHello
  currentXid := 0
  connectedEvents := 0
  up := [.routeflowAllocXid .hello 0 []]
  down := []

/-- The events that the opening waits for. -/
def Event.Opening : Event → Prop
  | .controller _ | .redistributeLeaderElect _ | .ack _ => False
  | _ => True

/-- Nothing that the opening waits for makes a difference any more. -/
def Settled (i : Nat) (w : Connection) : Prop :=
  ∀ e : Event, e.Opening → ((machine i).step w e).result = some w

/-- A message of an opening that is not a request. -/
def isQuiet (m : Rfpbuf) : Bool :=
  decide (m.type = some .hello) || decide (m.type = some .redistributeLeaderElect) || decide (m.type = some .ack)

/-- What a message makes of the state and the sequence number of the slot, unless it is a request that the slot
rejects. -/
def accept (p : SibRouterState × UInt32) (m : Rfpbuf) : Option (SibRouterState × UInt32) :=
  if isQuiet m then some p
  else (m.type.filter isRequest).bind fun type =>
    if (requestStep type m.xid p.1 p.2).2 = p.2 + 1 then some (requestStep type m.xid p.1 p.2) else none

/-- The state in which the slot will read the next message. -/
def entered (s : SibRouterState) : SibRouterState := if s = .connecting then .connected else s

/-- The first request is the one for the features. -/
def AsksFirst (ms : List Rfpbuf) : Prop := (ms.find? fun m => !isQuiet m).bind Rfpbuf.type = some .featuresRequest

theorem entered_of_ne {s : SibRouterState} (h : s ≠ .connecting) : entered s = s := if_neg h

theorem accept_of_isQuiet {m : Rfpbuf} (p : SibRouterState × UInt32) (h : isQuiet m = true) : accept p m = some p :=
  if_pos h

theorem accept_eq_some {p q : SibRouterState × UInt32} {m : Rfpbuf} (h : accept p m = some q) (hm : isQuiet m = false) :
    ∃ type, m.type = some type ∧ isRequest type = true ∧ q = requestStep type m.xid p.1 p.2 ∧ q.2 = p.2 + 1 := by
  unfold accept at h
  rw [if_neg (by simp [hm]), Option.bind_eq_some_iff] at h
  obtain ⟨type, hfilter, h⟩ := h
  obtain ⟨htype, hreq⟩ := Option.filter_eq_some_iff.mp hfilter
  split_ifs at h with hnext
  exact ⟨type, htype, hreq, (Option.some.inj h).symm, Option.some.inj h ▸ hnext⟩

theorem accept_request {type : RfpType} {s s' : SibRouterState} {x : UInt32} (hreq : isRequest type = true)
    (hnext : requestStep type x s x = (s', x + 1)) :
    accept (s, x) (.routeflowAllocXid type x []) = some (s', x + 1) := by
  have hquiet : isQuiet (.routeflowAllocXid type x []) = false := by
    simp only [isQuiet, Rfpbuf.type_routeflowAllocXid]
    cases type <;> first | rfl | cases hreq
  simp [accept, hquiet, hreq, hnext, Option.filter_some]

theorem xid_eq_of_requestStep {type : RfpType} {s : SibRouterState} {x y : UInt32}
    (h : (requestStep type y s x).2 = x + 1) : y = x := by
  by_contra hne
  rw [requestStep, if_neg hne] at h
  simp at h

/-- A request does not take a slot back to where it began. -/
theorem requestStep_ne {type : RfpType} {s new : SibRouterState} {x y : UInt32}
    (h : new = .connecting ∨ new = .connected ∨ new = .disconnected) (hs : s ≠ new) :
    (requestStep type y s x).1 ≠ new := by
  have hnext : ∀ s', requestNext (some type) s = some s' → s' ≠ new := by
    rintro s' hs' rfl
    rcases h with rfl | rfl | rfl <;> cases type <;> cases s <;> cases hs'
  unfold requestStep
  by_cases hxid : y = x
  · rw [if_pos hxid]
    cases hn : requestNext (some type) s with
    | some s' => exact hnext s' hn
    | none =>
        dsimp only
        split_ifs <;> exact hs
  · rw [if_neg hxid]
    exact hs

/-- The path of the opening. -/
theorem requestStep_opening (x : UInt32) :
    requestStep .featuresRequest x .connected x = (.featuresReqRcvd, x + 1) ∧
    requestStep .redistributeRequest x .featuresReqRcvd x = (.featuresRedisReqRcvd, x + 1) ∧
    ∀ t, t = .featuresRedisReqRcvd ∨ t = .routing → requestStep .ifAddressReq x t x = (.routing, x + 1) := by
  refine ⟨?_, ?_, fun t ht => ?_⟩
  · simp [requestStep, requestNext, Controller.featuresNext]
  · simp [requestStep, requestNext, Controller.redistributeNext]
  · rcases ht with rfl | rfl <;> simp [requestStep, requestNext, Controller.ifAddressNext]

theorem foldlM_accept_snoc {ms : List Rfpbuf} {m : Rfpbuf} {p q r : SibRouterState × UInt32}
    (h : ms.foldlM accept p = some q) (hm : accept q m = some r) : (ms ++ [m]).foldlM accept p = some r := by
  rw [List.foldlM_append, h]
  simpa using hm

theorem foldlM_accept_quiet {ms : List Rfpbuf} (h : ∀ m ∈ ms, isQuiet m = true) (p : SibRouterState × UInt32) :
    ms.foldlM accept p = some p := by
  induction ms with
  | nil => rfl
  | cons m ms ih =>
      rw [List.foldlM_cons, accept_of_isQuiet p (h m List.mem_cons_self)]
      exact ih fun a ha => h a (List.mem_cons_of_mem _ ha)

theorem AsksFirst.append {ms : List Rfpbuf} (h : AsksFirst ms) (ms' : List Rfpbuf) : AsksFirst (ms ++ ms') := by
  unfold AsksFirst at h ⊢
  rw [List.find?_append]
  cases hf : ms.find? fun m => !isQuiet m with
  | none => simp [hf] at h
  | some m => simpa [hf] using h

theorem AsksFirst.of_cons {m : Rfpbuf} {ms : List Rfpbuf} (h : AsksFirst (m :: ms)) (hm : isQuiet m = true) :
    AsksFirst ms := by
  unfold AsksFirst at h
  rwa [List.find?_cons_of_neg (by simp [hm])] at h

theorem AsksFirst.type {m : Rfpbuf} {ms : List Rfpbuf} (h : AsksFirst (m :: ms)) (hm : isQuiet m = false) :
    m.type = some .featuresRequest := by
  unfold AsksFirst at h
  rwa [List.find?_cons_of_pos (by simp [hm])] at h

theorem asksFirst_of_quiet {ms : List Rfpbuf} (h : ∀ m ∈ ms, isQuiet m = true) (x : UInt32) :
    AsksFirst (ms ++ [.routeflowAllocXid .featuresRequest x []]) := by
  have hnone : ms.find? (fun m => !isQuiet m) = none := List.find?_eq_none.mpr fun m hm => by simp [h m hm]
  rw [AsksFirst, List.find?_append, hnone, Option.none_or, List.find?_cons_of_pos rfl]
  rfl

section Outs

variable {c c' : State} {k : SibRef} {s : SibRouterState} {x : UInt32} {m : Rfpbuf} {env : Controller.Env}

theorem mem_outs_handshakeRequest {xid : UInt32} {expects : SibRouterState → Bool} {reply : Exec Output Unit}
    {next : SibRouterState → Option SibRouterState} {sr : Controller.SibRouter} {o : Output}
    (h : o ∈ (Controller.handshakeRequest k xid expects reply next sr c).outs) :
    o ∈ reply.outs ∨ ∃ j y, o = .leaderElect j y := by
  unfold Controller.handshakeRequest at h
  split_ifs at h
  · rcases Exec.mem_outs_bind.mp h with h | ⟨_, -, h⟩
    · exact .inl h
    · split at h
      · rcases Exec.mem_outs_bind.mp h with h | ⟨_, -, h⟩
        · exact .inr (Controller.outs_stateTransition h)
        · cases h
      · cases h
  · cases h

theorem featuresReply_not_mem_voteMajority {ports : List Controller.Interface} :
    .featuresReply k x ports ∉ (Controller.voteMajority env c).outs := by
  intro h
  cases hw : Controller.winner c with
  | none =>
      rw [Controller.outs_voteMajority_of_winner_eq_none hw] at h
      cases h
  | some a =>
      obtain ⟨os, houts, hos⟩ := Controller.outs_voteMajority_of_winner env hw
      rw [houts] at h
      rcases List.mem_cons.mp h with h | h
      · cases h
      · rcases List.mem_append.mp h with h | h
        · obtain ⟨j, -, hj⟩ := List.mem_map.mp ((Controller.outs_sendEach_inOrder 0 _).subset h)
          cases hj
        · obtain ⟨y, hy⟩ := hos _ h
          cases hy

theorem featuresReply_mem_packet {k' : SibRef} {ports : List Controller.Interface}
    (h : .featuresReply k x ports ∈ (Controller.sibRouterProcessPacket env k' m c).outs) :
    k' = k ∧ m.type = some .featuresRequest := by
  cases hsr : c.sib k' with
  | none =>
      rw [Controller.sibRouterProcessPacket, hsr, Exec.bind_of_none _ rfl] at h
      cases h
  | some sr =>
      have hegress : ∀ sr', .featuresReply k x ports ∉ (Controller.egressMsg env k' m sr' c).outs := by
        intro sr' hmem
        unfold Controller.egressMsg at hmem
        split_ifs at hmem
        · exact featuresReply_not_mem_voteMajority hmem
        all_goals cases hmem
      rw [Controller.sibRouterProcessPacket, hsr, Exec.deref_some_bind] at h
      split at h
      · next ht =>
          obtain h | ⟨j, y, hj⟩ := mem_outs_handshakeRequest h
          · obtain ⟨j, -, hj⟩ := List.mem_map.mp ((Controller.outs_sendEach_inOrder 0 _).subset h)
            cases hj
            exact ⟨rfl, ht⟩
          · cases hj
      · obtain h | ⟨j, y, hj⟩ := mem_outs_handshakeRequest h
        · simp only [Controller.sibRouterIfAddrAdd, Exec.outs_emits, List.mem_flatMap, List.mem_map] at h
          obtain ⟨r, -, ifp, -, ifc, -, heq⟩ := h
          cases heq
        · cases hj
      · obtain h | ⟨j, y, hj⟩ := mem_outs_handshakeRequest h
        · obtain ⟨r, -, heq⟩ := List.mem_map.mp h
          cases heq
        · cases hj
      · exact absurd h (hegress _)
      · exact absurd h (hegress _)
      · rw [Controller.forwardBgp, Exec.outs_emits_bind, Exec.outs_pure, List.append_nil] at h
        obtain ⟨j, -, heq⟩ := List.mem_map.mp h
        cases heq
      · cases h
      · rcases Exec.mem_outs_bind.mp h with h | ⟨_, -, h⟩ <;> cases h
      · cases h

/-- The features are the answer to a request for them and to nothing else. -/
theorem featuresReply_mem {e : Controller.Event} {ports : List Controller.Interface}
    (h : .featuresReply k x ports ∈ (Controller.machine.step c e).outs) :
    ∃ m env, e = .recv k m env ∧ m.type = some .featuresRequest := by
  have hmove : ∀ {sr : Controller.SibRouter} {new : SibRouterState} {c : State},
      .featuresReply k x ports ∉ (Controller.stateTransition sr new c).outs := by
    intro sr new c hmem
    obtain ⟨i, y, heq⟩ := Controller.outs_stateTransition hmem
    cases heq
  cases e with
  | acceptOspf6 raw =>
      simp only [Controller.machine, Controller.step, Controller.sibListenerAcceptOspf6] at h
      split at h <;> simp only [Controller.sibRouterReuse, Controller.sibRouterCreate, Exec.mem_outs_bind,
        Exec.outs_deref, Exec.outs_require, Exec.outs_pure, hmove, List.not_mem_nil, and_false, exists_false,
        or_self] at h
  | acceptBgp raw =>
      simp only [Controller.machine, Controller.step, Controller.sibListenerAcceptBgp, Controller.sibRouterCreate,
        Exec.mem_outs_bind, Exec.outs_require, Exec.outs_pure, hmove, List.not_mem_nil, and_false, exists_false,
        or_self] at h
  | start k' =>
      simp only [Controller.machine, Controller.step] at h
      split at h
      · split_ifs at h
        · simp only [Exec.mem_outs_bind, Exec.outs_pure, hmove, List.not_mem_nil, false_or, and_false,
            exists_false] at h
        · cases h
      · cases h
  | destroy k' =>
      simp only [Controller.machine, Controller.step] at h
      split at h
      · split_ifs at h
        · cases h
        · simp only [Controller.sibRouterDestroy, Exec.mem_outs_bind, Exec.outs_deref, Exec.outs_pure, hmove,
            List.not_mem_nil, false_or, and_false, exists_false] at h
      · cases h
  | ingress msg y =>
      simp only [Controller.machine, Controller.step, Controller.sibRouterForwardOspf6, Exec.outs_emits_bind,
        Exec.outs_pure, List.append_nil] at h
      obtain ⟨j, -, heq⟩ := List.mem_map.mp h
      cases heq
  | routerSide routers rib => cases h
  | recv k' m env =>
      simp only [Controller.machine, Controller.step] at h
      split at h
      · split_ifs at h
        · cases h
        · obtain ⟨rfl, ht⟩ := featuresReply_mem_packet h
          exact ⟨m, env, rfl, ht⟩
      · cases h

/-- What an event sends to slot `i` has none of the two types the sibling answers, unless it is a request for the
features. -/
theorem receivedAt_silent {i : Nat} {e : Controller.Event}
    (he : ∀ m env, e = .recv (.ospf6 i) m env → m.type ≠ some .featuresRequest) :
    .featuresReply ∉ (Controller.machine.step c e).outs.filterMap (receivedAt i) := by
  intro h
  obtain ⟨o, ho, htype⟩ := List.mem_filterMap.mp h
  cases o with
  | featuresReply dst y ports =>
      rw [receivedAt] at htype
      split_ifs at htype with hdst
      obtain ⟨m, env, rfl, ht⟩ := featuresReply_mem (hdst ▸ ho)
      exact he m env rfl ht
  | addressReply dst y ifindex ifc =>
      rw [receivedAt] at htype
      split_ifs at htype
      cases hf : ifc.family <;> rw [hf] at htype <;> cases htype
  | routerForward _ _ _ => cases htype
  | achievedMajority => cases htype
  | dbSetEgressXid _ => cases htype
  | _ =>
      rw [receivedAt] at htype
      split_ifs at htype
      cases htype

theorem hello_not_mem_received {i : Nat} (os : List Output) : .hello ∉ os.filterMap (receivedAt i) := by
  intro h
  obtain ⟨o, -, htype⟩ := List.mem_filterMap.mp h
  cases o with
  | addressReply dst y ifindex ifc =>
      rw [receivedAt] at htype
      split_ifs at htype
      cases hf : ifc.family <;> rw [hf] at htype <;> cases htype
  | routerForward _ _ _ => cases htype
  | achievedMajority => cases htype
  | dbSetEgressXid _ => cases htype
  | _ =>
      rw [receivedAt] at htype
      split_ifs at htype
      cases htype

/-- A slot that expects the request for the features answers it, if there is a router. -/
theorem featuresReply_of_request {i : Nat} (h : SlotAt c (.ospf6 i) .connected x) (hm : m.type = some .featuresRequest)
    (hxid : m.xid = x) (hrouters : c.routers ≠ []) :
    .featuresReply ∈ (Controller.machine.step c (.recv (.ospf6 i) m env)).outs.filterMap (receivedAt i) := by
  obtain ⟨sr, hsr, hstate, rfl⟩ := h
  obtain ⟨n, hn⟩ := Nat.exists_eq_succ_of_ne_zero (fun h0 => hrouters (List.length_eq_zero_iff.mp h0))
  refine List.mem_filterMap.mpr ⟨.featuresReply (.ospf6 i) m.xid ((c.routers.take 1).flatMap (·.portList)), ?_, ?_⟩
  · simp only [Controller.machine, Controller.step, hsr, hstate, reduceCtorEq, if_false,
      Controller.sibRouterProcessPacket, Exec.deref_some_bind, hm, Controller.handshakeRequest, hxid,
      Controller.featuresExpects, decide_true, Bool.true_or, and_self, if_true]
    refine Exec.mem_outs_bind.mpr (.inl ?_)
    rw [Controller.sibRouterSendFeaturesReply, hn, Controller.sendEach]
    exact List.mem_cons_self
  · rw [receivedAt, if_pos rfl]

/-- A message that is not a request leaves the slot where it is. -/
theorem slotAt_of_isQuiet {c' : State} (h : SlotAt c k s x) (hs : s ≠ .disconnected) (hm : isQuiet m = true)
    (hstep : (Controller.machine.step c (.recv k m env)).result = some c') : SlotAt c' k s x := by
  obtain ⟨sr, hsr, rfl, rfl⟩ := h
  simp only [Controller.machine, Controller.step, hsr, hs, if_false, Controller.sibRouterProcessPacket,
    Exec.deref_some_bind] at hstep
  simp only [isQuiet, Bool.or_eq_true, decide_eq_true_eq] at hm
  rcases hm with (hm | hm) | hm
  · rw [hm] at hstep
    cases hstep
    exact ⟨sr, hsr, rfl, rfl⟩
  · rw [hm] at hstep
    obtain ⟨_, -, hstep⟩ := Exec.result_bind_eq_some.mp hstep
    cases hstep
    have hsib : ∀ (c : State) (l : Option SibRef), State.sib { c with leaderSibling := l } k = c.sib k :=
      fun c l => by cases k <;> rfl
    exact ⟨_, (hsib _ _).trans ((Controller.State.sib_setSib hsr _ k).trans (if_pos rfl)), rfl, rfl⟩
  · rw [hm] at hstep
    cases hstep
    unfold Controller.ackMsg
    split_ifs
    · exact ⟨_, (Controller.State.sib_setSib hsr _ k).trans (if_pos rfl), rfl, rfl⟩
    · exact ⟨sr, hsr, rfl, rfl⟩

end Outs

/-! ### The invariant -/

/-- The Hellos of the two ends: the one of the sibling is the first message, and the controller reads nothing else
before. -/
def Greeting (w : Connection) : Prop :=
  w.vconn = .connected ∨
    (w.vconn = .sendHello ∨ w.vconn = .recvHello) ∧ ∃ m up, w.up = m :: up ∧ m.type = some .hello

/-- The sibling has sent no request. It will, once: the controller has still to send its Hello, or the Hello is on its
way, or `ctrl_client_connected` is scheduled. -/
structure Unasked (w : Connection) (t : SibRouterState) : Prop where
  state_eq : t = .connected
  currentXid_eq : w.currentXid = 0
  quiet : ∀ m ∈ w.up, isQuiet m = true
  noReply : .featuresReply ∉ w.down
  hello : w.down.count .hello + w.connectedEvents = if w.vconn = .sendHello then 0 else 1

/-- `ctrl_client_connected` has been called. Where there are routers (`R`) the last request will have been sent as soon
as the sibling has read a features reply. -/
structure Asked (R : Prop) (w : Connection) (s t : SibRouterState) : Prop where
  state_eq : t = .featuresRedisReqRcvd ∨ t = .routing
  vconn_ne : w.vconn ≠ .sendHello
  hello : w.down.count .hello + w.connectedEvents = 0
  asksFirst : entered s = .connected → AsksFirst w.up
  reply : R → t = .featuresRedisReqRcvd → entered s = .connected ∨ .featuresReply ∈ w.down

/-- The slot is in state `s` with the number `x`; it will accept every request that is on its way and then be in state
`t` with the number of the sibling. -/
structure Agreed (i : Nat) (R : Prop) (w : Connection) (s : SibRouterState) (x : UInt32) (t : SibRouterState) :
    Prop where
  slot : SlotAt w.controller (.ospf6 i) s x
  connected : s ≠ .disconnected
  accepted : w.up.foldlM accept (entered s, x) = some (t, w.currentXid)
  greeting : Greeting w
  phase : Unasked w t ∨ Asked R w s t

def Kept (i : Nat) (R : Prop) (w : Connection) : Prop := ∃ s x t, Agreed i R w s x t

theorem Greeting.append {w w' : Connection} {ms : List Rfpbuf} (h : Greeting w) (hv : w'.vconn = w.vconn)
    (hup : w'.up = w.up ++ ms) : Greeting w' := by
  unfold Greeting
  rw [hv]
  refine h.imp_right fun ⟨hstate, a, up, heq, ha⟩ => ⟨hstate, a, up ++ ms, ?_, ha⟩
  rw [hup, heq, List.cons_append]

section Steps

variable {i : Nat} {R : Prop} {w w' : Connection} {s t : SibRouterState} {x : UInt32}

theorem count_hello_append {down : List RfpType} {os : List Output} {p : Prop} [Decidable p] :
    (down ++ if p then os.filterMap (receivedAt i) else []).count .hello = down.count .hello := by
  rw [List.count_append]
  split_ifs
  · rw [List.count_eq_zero.mpr (hello_not_mem_received os), Nat.add_zero]
  · rfl

/-- An event of the controller that leaves the slot where it is and sends it no features. -/
theorem Agreed.act_silent (h : Agreed i R w s x t) {e : Controller.Event} {s' : SibRouterState}
    (he : ∀ m env, e = .recv (.ospf6 i) m env → m.type ≠ some .featuresRequest)
    (hs : s' ≠ .disconnected) (hentered : entered s' = entered s)
    (hslot : ∀ c, (Controller.machine.step w.controller e).result = some c → SlotAt c (.ospf6 i) s' x)
    (hstep : (w.act i e).result = some w') : Agreed i R w' s' x t := by
  obtain ⟨c, hc, rfl⟩ := Option.map_eq_some_iff.mp hstep
  refine ⟨hslot c hc, hs, hentered ▸ h.accepted, h.greeting, h.phase.imp (fun hu => ?_) fun ha => ?_⟩
  · refine ⟨hu.state_eq, hu.currentXid_eq, hu.quiet, fun hmem => ?_, ?_⟩
    · rcases List.mem_append.mp hmem with hmem | hmem
      · exact hu.noReply hmem
      · split_ifs at hmem
        · exact receivedAt_silent he hmem
        · cases hmem
    · rw [count_hello_append]
      exact hu.hello
  · refine ⟨ha.state_eq, ha.vconn_ne, ?_, hentered ▸ ha.asksFirst, fun hR ht => ?_⟩
    · rw [count_hello_append]
      exact ha.hello
    · rw [hentered]
      exact (ha.reply hR ht).imp_right (List.mem_append_left _)

theorem Kept.controller (h : Kept i R w) {e : Controller.Event} (he : e.concerns (.ospf6 i) = false)
    (hvotes : votesWon (Controller.machine.step w.controller e).outs = 0) (hstep : (w.act i e).result = some w') :
    Kept i R w' := by
  obtain ⟨s, x, t, h⟩ := h
  refine ⟨s, x, t, h.act_silent ?_ h.connected rfl (fun c hc => ?_) hstep⟩
  · rintro m env rfl
    simp [Controller.Event.concerns] at he
  · have hother := h.slot.other_step h.connected he hc
    rw [hvotes] at hother
    simpa using hother

theorem Kept.sibRouterRun (h : Kept i R w) (hstep : (w.act i (.start (.ospf6 i))).result = some w') : Kept i R w' := by
  obtain ⟨s, x, t, h⟩ := h
  have hstart : ∀ m env, Controller.Event.start (.ospf6 i) = .recv (.ospf6 i) m env → m.type ≠ some .featuresRequest :=
    fun _ _ heq => by cases heq
  by_cases hs : s = .connecting
  · subst hs
    exact ⟨.connected, x, t, h.act_silent hstart nofun rfl (fun c hc => h.slot.start_step hc) hstep⟩
  · refine ⟨s, x, t, h.act_silent hstart h.connected rfl (fun c hc => ?_) hstep⟩
    obtain ⟨sr, hsr, rfl, rfl⟩ := h.slot
    simp only [Controller.machine, Controller.step, hsr, hs, if_false, Exec.result_pure, Option.some.injEq] at hc
    exact ⟨sr, hc ▸ hsr, rfl, rfl⟩

theorem Kept.vconnConnect (h : Kept i R w) : Kept i R w.vconnConnect := by
  obtain ⟨s, x, t, h⟩ := h
  refine ⟨s, x, t, ?_⟩
  obtain hv | ⟨hv | hv, m, up, hup, hm⟩ := h.greeting
  · rwa [Connection.vconnConnect, hv]
  · -- the Hello of the controller
    rw [Connection.vconnConnect, hv]
    refine ⟨h.slot, h.connected, h.accepted, .inr ⟨.inr rfl, m, up, hup, hm⟩, .inl ?_⟩
    obtain hu | ha := h.phase
    · refine ⟨hu.state_eq, hu.currentXid_eq, hu.quiet, ?_, ?_⟩
      · simpa using hu.noReply
      · have := hu.hello
        rw [if_pos hv] at this
        simp only [List.count_append, List.count_singleton_self, reduceCtorEq, if_false]
        omega
    · exact absurd hv ha.vconn_ne
  · -- the Hello of the sibling
    have hquiet : isQuiet m = true := by simp [isQuiet, hm]
    have haccepted := h.accepted
    rw [hup, List.foldlM_cons, accept_of_isQuiet _ hquiet] at haccepted
    simp only [Connection.vconnConnect, hv, hup, hm, if_true]
    refine ⟨h.slot, h.connected, haccepted, .inl rfl, h.phase.imp (fun hu => ?_) fun ha => ?_⟩
    · refine ⟨hu.state_eq, hu.currentXid_eq, fun a ha => hu.quiet a (hup ▸ List.mem_cons_of_mem _ ha), hu.noReply, ?_⟩
      have := hu.hello
      rwa [hv] at this
    · exact ⟨ha.state_eq, nofun, ha.hello, fun hs => (hup ▸ ha.asksFirst hs).of_cons hquiet, ha.reply⟩

/-- A request that is on its way is accepted. -/
theorem Agreed.request (h : Agreed i R w s x t) (hs : s ≠ .connecting) (hv : w.vconn = .connected) {m : Rfpbuf}
    {up : List Rfpbuf} (hup : w.up = m :: up) (hm : isQuiet m = false) {p : SibRouterState × UInt32}
    (hp : accept (s, x) m = some p) (hrest : up.foldlM accept p = some (t, w.currentXid)) {env : Controller.Env}
    (hR : R → w.controller.routers ≠ []) {c : State}
    (hc : (Controller.machine.step w.controller (.recv (.ospf6 i) m env)).result = some c) :
    Agreed i R { w with
      controller := c
      up
      down := w.down ++ if w.vconn = .connected then
        (Controller.machine.step w.controller (.recv (.ospf6 i) m env)).outs.filterMap (receivedAt i) else [] }
        p.1 p.2 t := by
  obtain ⟨type, htype, hreq, hstep, hnext⟩ := accept_eq_some hp hm
  have hxid : m.xid = x := xid_eq_of_requestStep (hstep ▸ hnext)
  have hslot := h.slot.request_step h.connected htype hreq hc
  rw [← hstep] at hslot
  obtain hu | ha := h.phase
  · exact absurd (hu.quiet m (hup ▸ List.mem_cons_self)) (by simp [hm])
  have hfeatures : s = .connected → m.type = some .featuresRequest := fun hconnected =>
    (hup ▸ ha.asksFirst ((entered_of_ne hs).trans hconnected)).type hm
  have hread : p.1 ≠ .connecting := hstep ▸ requestStep_ne (.inl rfl) hs
  have hnew : p.1 ≠ .connected := by
    by_cases hconnected : s = .connected
    · obtain rfl : type = .featuresRequest := Option.some.inj (htype.symm.trans (hfeatures hconnected))
      rw [hstep, hconnected, hxid, (requestStep_opening x).1]
      exact nofun
    · exact hstep ▸ requestStep_ne (.inr (.inl rfl)) hconnected
  refine ⟨hslot, hstep ▸ requestStep_ne (.inr (.inr rfl)) h.connected, ?_, .inl hv,
    .inr ⟨ha.state_eq, ha.vconn_ne, ?_, fun hs' => ?_, fun hr ht => .inr ?_⟩⟩
  · rwa [entered_of_ne hread]
  · rw [count_hello_append]
    exact ha.hello
  · rw [entered_of_ne hread] at hs'
    exact absurd hs' hnew
  · obtain hconnected | hmem := ha.reply hr ht
    · rw [entered_of_ne hs] at hconnected
      refine List.mem_append_right _ ?_
      rw [if_pos hv]
      exact featuresReply_of_request (hconnected ▸ h.slot) (hfeatures hconnected) hxid (hR hr)
    · exact List.mem_append_left _ hmem

/-- The next message of the sibling. -/
theorem Kept.deliver (h : Kept i R w) {spare : UInt8} (hR : R → w.controller.routers ≠ [])
    (hstep : (w.deliver i spare).result = some w') : Kept i R w' := by
  obtain ⟨s, x, t, h⟩ := h
  unfold Connection.deliver at hstep
  split at hstep
  · next m up hv hup =>
      split_ifs at hstep with hconnecting
      · cases hstep
        exact ⟨s, x, t, h⟩
      have hs : s ≠ .connecting := by
        rintro rfl
        obtain ⟨sr, hsr, hstate, -⟩ := h.slot
        simp [hsr, hstate] at hconnecting
      have haccepted := h.accepted
      rw [hup, List.foldlM_cons, entered_of_ne hs, Option.bind_eq_bind, Option.bind_eq_some_iff] at haccepted
      obtain ⟨p, hp, hrest⟩ := haccepted
      by_cases hm : isQuiet m = true
      · rw [accept_of_isQuiet _ hm] at hp
        cases hp
        -- only the queue has changed
        have hpop : Agreed i R { w with up } s x t := by
          refine ⟨h.slot, h.connected, (entered_of_ne hs).symm ▸ hrest, .inl hv, h.phase.imp (fun hu => ?_)
            fun ha => ?_⟩
          · exact ⟨hu.state_eq, hu.currentXid_eq, fun a ha => hu.quiet a (hup ▸ List.mem_cons_of_mem _ ha), hu.noReply,
              hu.hello⟩
          · exact ⟨ha.state_eq, ha.vconn_ne, ha.hello, fun hs => (hup ▸ ha.asksFirst hs).of_cons hm, ha.reply⟩
        refine ⟨s, x, t, hpop.act_silent ?_ h.connected rfl (fun c hc => slotAt_of_isQuiet h.slot h.connected hm hc)
          hstep⟩
        rintro m' env' heq htype
        cases heq
        simp [isQuiet, htype] at hm
      · obtain ⟨c, hc, rfl⟩ := Option.map_eq_some_iff.mp hstep
        exact ⟨p.1, p.2, t, h.request hs hv hup (Bool.eq_false_iff.mpr hm) hp hrest hR hc⟩
  · cases hstep
    exact ⟨s, x, t, h⟩

theorem Kept.ctrlSendMessage (h : Kept i R w) {m : Rfpbuf} (hm : isQuiet m = true) :
    Kept i R (w.ctrlSendMessage m) := by
  obtain ⟨s, x, t, h⟩ := h
  refine ⟨s, x, t, h.slot, h.connected, foldlM_accept_snoc h.accepted (accept_of_isQuiet _ hm), ?_,
    h.phase.imp (fun hu => ?_) fun ha => ?_⟩
  · exact h.greeting.append rfl rfl
  · refine ⟨hu.state_eq, hu.currentXid_eq, fun a ha => ?_, hu.noReply, hu.hello⟩
    rcases List.mem_append.mp ha with ha | ha
    · exact hu.quiet a ha
    · exact List.mem_singleton.mp ha ▸ hm
  · exact ⟨ha.state_eq, ha.vconn_ne, ha.hello, fun hs => (ha.asksFirst hs).append _, ha.reply⟩

/-- The second half of the opening: the last request is sent once a features reply has been read, and again for every
further one. -/
theorem Kept.ctrlClientRead (h : Kept i R w) : Kept i R w.ctrlClientRead := by
  obtain ⟨s, x, t, h⟩ := h
  unfold Connection.ctrlClientRead
  split
  · exact ⟨s, x, t, h⟩
  · next down hdown =>
      refine ⟨s, x, t, h.slot, h.connected, h.accepted, h.greeting, .inl ?_⟩
      have hcount : w.down.count .hello = down.count .hello + 1 := by rw [hdown, List.count_cons_self]
      obtain hu | ha := h.phase
      · refine ⟨hu.state_eq, hu.currentXid_eq, hu.quiet,
          fun hmem => hu.noReply (hdown ▸ List.mem_cons_of_mem _ hmem), ?_⟩
        rw [← hu.hello, hcount, Nat.add_right_comm, Nat.add_assoc]
      · have := ha.hello
        omega
  · next down hdown =>
      have hcount : w.down.count .hello = down.count .hello := by rw [hdown, List.count_cons_of_ne (by decide)]
      obtain hu | ha := h.phase
      · exact absurd (hdown ▸ List.mem_cons_self) hu.noReply
      · have hlast := (requestStep_opening w.currentXid).2.2 t ha.state_eq
        exact ⟨s, x, .routing, h.slot, h.connected, foldlM_accept_snoc h.accepted (accept_request rfl hlast),
          h.greeting.append rfl rfl, .inr ⟨.inr rfl, ha.vconn_ne, hcount ▸ ha.hello,
            fun hs => (ha.asksFirst hs).append _, nofun⟩⟩
  · next type down hhello hfeatures hdown =>
      have hcount : w.down.count .hello = down.count .hello := by
        rw [hdown, List.count_cons_of_ne (fun heq => hhello heq)]
      refine ⟨s, x, t, h.slot, h.connected, h.accepted, h.greeting, h.phase.imp (fun hu => ?_) fun ha => ?_⟩
      · exact ⟨hu.state_eq, hu.currentXid_eq, hu.quiet, fun hmem => hu.noReply (hdown ▸ List.mem_cons_of_mem _ hmem),
          hcount ▸ hu.hello⟩
      · refine ⟨ha.state_eq, ha.vconn_ne, hcount ▸ ha.hello, ha.asksFirst, fun hR ht => (ha.reply hR ht).imp_right ?_⟩
        intro hmem
        rw [hdown] at hmem
        exact (List.mem_cons.mp hmem).resolve_left fun heq => hfeatures heq.symm

/-- The first half: the two requests that the Hello of the controller sets off. -/
theorem Kept.ctrlClientConnected (h : Kept i R w) : Kept i R w.ctrlClientConnected := by
  obtain ⟨s, x, t, h⟩ := h
  unfold Connection.ctrlClientConnected
  split
  · exact ⟨s, x, t, h⟩
  · next n hn =>
      obtain hu | ha := h.phase
      · have hhello := hu.hello
        have hv : w.vconn ≠ .sendHello := by
          intro hv
          rw [if_pos hv] at hhello
          omega
        rw [if_neg hv] at hhello
        have haccepted : w.up.foldlM accept (entered s, x) = some (.connected, w.currentXid) :=
          hu.state_eq ▸ h.accepted
        have hentered : entered s = .connected :=
          congrArg Prod.fst (Option.some.inj ((foldlM_accept_quiet hu.quiet _).symm.trans haccepted))
        refine ⟨s, x, .featuresRedisReqRcvd, h.slot, h.connected, ?_, ?_, .inr ⟨.inl rfl, hv, ?_, fun _ => ?_,
          fun _ _ => .inl hentered⟩⟩
        · exact foldlM_accept_snoc (foldlM_accept_snoc haccepted
            (accept_request rfl (requestStep_opening _).1)) (accept_request rfl (requestStep_opening _).2.1)
        · exact h.greeting.append rfl (List.append_assoc _ _ _)
        · show w.down.count .hello + n = 0
          omega
        · exact (asksFirst_of_quiet hu.quiet _).append _
      · have := ha.hello
        omega

theorem Kept.step (h : Kept i R w) {e : Event} (hR : R → w.controller.routers ≠ [])
    (hvotes : votesWon ((machine i).step w e).outs = 0) (hstep : ((machine i).step w e).result = some w') :
    Kept i R w' := by
  cases e with
  | controller e =>
      simp only [machine, Connection.step] at hstep hvotes
      by_cases he : e.concerns (.ospf6 i) = true
      · rw [if_pos he] at hstep
        cases hstep
        exact h
      · rw [if_neg he] at hstep hvotes
        exact h.controller (Bool.eq_false_iff.mpr he) hvotes hstep
  | vconnConnect =>
      cases hstep
      exact h.vconnConnect
  | sibRouterRun => exact h.sibRouterRun hstep
  | deliver spare => exact h.deliver hR hstep
  | ctrlClientRead =>
      cases hstep
      exact h.ctrlClientRead
  | ctrlClientConnected =>
      cases hstep
      exact h.ctrlClientConnected
  | redistributeLeaderElect leader =>
      cases hstep
      exact h.ctrlSendMessage (by simp [isQuiet])
  | ack xid =>
      cases hstep
      exact h.ctrlSendMessage (by simp [isQuiet])

end Steps

theorem kept_opened {i : Nat} {R : Prop} {c : State} (h : SlotAt c (.ospf6 i) .connecting 0) : Kept i R (opened c) := by
  have hhello : isQuiet (.routeflowAllocXid .hello 0 []) = true := by simp [isQuiet]
  refine ⟨.connecting, 0, .connected, h, nofun, ?_, .inr ⟨.inl rfl, _, _, rfl, Rfpbuf.type_routeflowAllocXid _ _ _⟩,
    .inl ⟨rfl, rfl, fun m hm => List.mem_singleton.mp hm ▸ hhello, List.not_mem_nil, rfl⟩⟩
  exact foldlM_accept_quiet (fun m hm => List.mem_singleton.mp hm ▸ hhello) _

theorem kept_of_run {i : Nat} {R : Prop} {w w' : Connection} {es : List Event} (h : Kept i R w)
    (hR : R → (machine i).AllSteps (fun w _ => w.controller.routers.length = 1) w es)
    (hvotes : votesWon ((machine i).run w es).outs = 0) (hrun : ((machine i).run w es).result = some w') :
    Kept i R w' := by
  induction es generalizing w with
  | nil =>
      cases hrun
      exact h
  | cons e es ih =>
      rw [Machine.run_cons, Exec.result_bind_eq_some] at hrun
      obtain ⟨w1, hw1, hrun⟩ := hrun
      rw [Machine.run_cons, Exec.bind_of_some _ hw1, Controller.votesWon_append, Nat.add_eq_zero_iff] at hvotes
      exact ih (h.step (fun hr => List.ne_nil_of_length_eq_add_one (hR hr).1) hvotes.1 hw1)
        (fun hr => (hR hr).2 w1 hw1) hvotes.2 hrun

section Rest

variable {i : Nat} {w : Connection}

theorem Settled.down_eq (h : Settled i w) : w.down = [] := by
  have hread : w.ctrlClientRead = w := Option.some.inj (h .ctrlClientRead trivial)
  have hdown := congrArg Connection.down hread
  unfold Connection.ctrlClientRead at hdown
  split at hdown
  · assumption
  all_goals
    next heq =>
      exfalso
      have hlength := congrArg List.length (heq.symm.trans hdown.symm)
      simp [Connection.request, Connection.ctrlSendMessage] at hlength

theorem Settled.connectedEvents_eq (h : Settled i w) : w.connectedEvents = 0 := by
  have hconnected : w.ctrlClientConnected = w := Option.some.inj (h .ctrlClientConnected trivial)
  have hup := congrArg (fun w => w.up.length) hconnected
  unfold Connection.ctrlClientConnected at hup
  split at hup
  · assumption
  · simp [Connection.request, Connection.ctrlSendMessage] at hup

theorem Settled.vconn_eq (h : Settled i w) (hgreeting : Greeting w) : w.vconn = .connected := by
  have hconnect : w.vconnConnect = w := Option.some.inj (h .vconnConnect trivial)
  have hvconn := congrArg Connection.vconn hconnect
  obtain hv | ⟨hv | hv, m, up, hup, hm⟩ := hgreeting
  · exact hv
  · simp only [Connection.vconnConnect, hv] at hvconn
    cases hvconn
  · simp only [Connection.vconnConnect, hv, hup, hm, if_true] at hvconn
    cases hvconn

theorem Settled.slot_ne (h : Settled i w) {s : SibRouterState} {x : UInt32}
    (hslot : SlotAt w.controller (.ospf6 i) s x) : s ≠ .connecting := by
  rintro rfl
  obtain ⟨c, hc, heq⟩ := Option.map_eq_some_iff.mp (h .sibRouterRun trivial)
  obtain ⟨sr, hsr, hstate, -⟩ := hslot.start_step hc
  obtain ⟨sr', hsr', hstate', -⟩ := hslot
  rw [show w.controller = c from congrArg Connection.controller heq.symm, hsr] at hsr'
  cases hsr'
  rw [hstate] at hstate'
  cases hstate'

theorem Settled.up_eq (h : Settled i w) (hv : w.vconn = .connected) {s : SibRouterState} {x : UInt32}
    (hslot : SlotAt w.controller (.ospf6 i) s x) (hs : s ≠ .connecting) : w.up = [] := by
  obtain ⟨sr, hsr, rfl, rfl⟩ := hslot
  cases hup : w.up with
  | nil => rfl
  | cons m up =>
      have hdeliver := h (.deliver 0) trivial
      simp only [machine, Connection.step, Connection.deliver, hv, hup, hsr, Option.any_some, hs, decide_false,
        Bool.false_eq_true, if_false] at hdeliver
      obtain ⟨c, -, heq⟩ := Option.map_eq_some_iff.mp hdeliver
      have hlength := congrArg (fun w => w.up.length) heq
      simp [hup] at hlength

theorem settled_of_empty {s : SibRouterState} {x : UInt32} (hv : w.vconn = .connected) (hup : w.up = [])
    (hdown : w.down = []) (hevents : w.connectedEvents = 0) (hslot : SlotAt w.controller (.ospf6 i) s x)
    (hs : s ≠ .connecting) : Settled i w := by
  obtain ⟨sr, hsr, rfl, rfl⟩ := hslot
  intro e he
  cases e with
  | sibRouterRun =>
      simp only [machine, Connection.step, Connection.act, Controller.machine, Controller.step, hsr, hs, if_false,
        Exec.result_pure, Option.map_some, Exec.outs_pure, List.filterMap_nil, ite_self, List.append_nil]
  | vconnConnect => simp [machine, Connection.step, Connection.vconnConnect, hv]
  | deliver spare => simp [machine, Connection.step, Connection.deliver, hup]
  | ctrlClientRead => simp [machine, Connection.step, Connection.ctrlClientRead, hdown]
  | ctrlClientConnected => simp [machine, Connection.step, Connection.ctrlClientConnected, hevents]
  | _ => cases he

/-- Where nothing is left that the opening waits for, the slot is routing. -/
theorem Kept.routing_of_settled (h : Kept i True w) (hsettled : Settled i w) :
    SlotAt w.controller (.ospf6 i) .routing w.currentXid := by
  obtain ⟨s, x, t, h⟩ := h
  have hv := hsettled.vconn_eq h.greeting
  have hs := hsettled.slot_ne h.slot
  have haccepted := h.accepted
  rw [hsettled.up_eq hv h.slot hs, entered_of_ne hs] at haccepted
  obtain ⟨rfl, rfl⟩ := Prod.mk.inj (Option.some.inj haccepted)
  obtain hu | ha := h.phase
  · have hhello := hu.hello
    rw [hsettled.down_eq, hsettled.connectedEvents_eq, hv] at hhello
    cases hhello
  · obtain rfl | rfl := ha.state_eq
    · obtain hconnected | hmem := ha.reply trivial rfl
      · cases hconnected
      · rw [hsettled.down_eq] at hmem
        cases hmem
    · exact h.slot

end Rest

/-- Whatever the order in which the two ends and the other siblings go on, as long as no vote is won: the slot accepts
every request that is on its way, so that both ends come to the same number, and where there is one router the opening
does not come to rest before the slot is routing. -/
theorem handshake_of_run {i : Nat} {c : State} {es : List Event} {w : Connection}
    (hc : SlotAt c (.ospf6 i) .connecting 0) (hvotes : votesWon ((machine i).run (opened c) es).outs = 0)
    (hrun : ((machine i).run (opened c) es).result = some w) :
    (∃ s x t, SlotAt w.controller (.ospf6 i) s x ∧
      w.up.foldlM accept (entered s, x) = some (t, w.currentXid)) ∧
    ((machine i).AllSteps (fun w _ => w.controller.routers.length = 1) (opened c) es → Settled i w →
      SlotAt w.controller (.ospf6 i) .routing w.currentXid) := by
  refine ⟨?_, fun hrouters hsettled => ?_⟩
  · obtain ⟨s, x, t, h⟩ := kept_of_run (R := False) (kept_opened hc) nofun hvotes hrun
    exact ⟨s, x, t, h.slot, h.accepted⟩
  · exact (kept_of_run (R := True) (kept_opened hc) (fun _ => hrouters) hvotes hrun).routing_of_settled hsettled

/-- A router with one port and an address on it. -/
def oneRouter : Controller.Router := ⟨[⟨2, [101, 116, 104, 48], 0, 1500, [⟨.inet, 24, [10, 0, 0, 1]⟩]⟩]⟩

/-- The opening of the first of two siblings, with the requests of the second one in between. -/
def twoOpenings : List Event :=
  [.vconnConnect, .ctrlClientRead, .sibRouterRun, .vconnConnect, .controller (.start (.ospf6 1)), .ctrlClientConnected,
    .controller (.recv (.ospf6 1) (.routeflowAllocXid .featuresRequest 0 []) Controller.promptEnv),
    .redistributeLeaderElect true, .deliver 0, .ctrlClientRead,
    .controller (.recv (.ospf6 1) (.routeflowAllocXid .redistributeRequest 1 []) Controller.promptEnv),
    .deliver 0, .deliver 0, .deliver 0, .ctrlClientRead]

/-- Two siblings connect to a controller with one router; the first of them goes through the opening while the second
one does. -/
theorem handshake_of_two : ∃ c w, SlotAt c (.ospf6 0) .connecting 0 ∧
    ((machine 0).run (opened c) twoOpenings).result = some w ∧ Settled 0 w ∧
    SlotAt w.controller (.ospf6 0) .routing w.currentXid := by
  obtain ⟨c, hc, hsr, hvotes, hrouters, hrun⟩ := exists_of_any
    (p := fun c => ((c.sib (.ospf6 0)).any fun sr =>
        decide (sr.state = .connecting ∧ sr.currentEgressXid = 0)) = true ∧
      votesWon ((machine 0).run (opened c) twoOpenings).outs = 0 ∧
      (machine 0).AllSteps (fun w _ => w.controller.routers.length = 1) (opened c) twoOpenings ∧
      (((machine 0).run (opened c) twoOpenings).result.any fun w => decide (w.vconn = .connected ∧ w.up = [] ∧
        w.down = [] ∧ w.connectedEvents = 0 ∧ (w.controller.sib (.ospf6 0)).any
          (fun sr => decide (sr.state ≠ .connecting)) = true)) = true)
    (o := (Controller.machine.run (State.sibRouterInit [oneRouter] [] 3 .all)
      (List.replicate 2 (.acceptOspf6 Controller.zeroedSib))).result) (by decide)
  obtain ⟨w, hw, hv, hup, hdown, hevents, hslot⟩ := exists_of_any hrun
  obtain ⟨sr, hsr', hs⟩ := exists_of_any hslot
  have hconnecting : SlotAt c (.ospf6 0) .connecting 0 := exists_of_any hsr
  have hsettled : Settled 0 w := settled_of_empty hv hup hdown hevents ⟨sr, hsr', rfl, rfl⟩ hs
  exact ⟨c, w, hconnecting, hw, hsettled, (handshake_of_run hconnecting hvotes hw).2 hrouters hsettled⟩

end Harry.Handshake
