import Harry.ControllerPacket

/-! What one event can do to the controller. `Handled` lists the effects a message can have on the
tables before a vote, `Stepped` those of an event; both are read off the code once. An event that leads
to a vote calls `vote_majority` in such a state, and `step_cases` says that this is all there is. So an
invariant is a case analysis over `Stepped`, or over `SlotStep` if it is about one sibling, and the
step a won vote takes. -/

open Harry.Base Harry.Rfp

namespace Harry.Controller

/-- The state a handshake request moves a sibling to. -/
def requestNext (type : Option RfpType) (s : SibRouterState) : Option SibRouterState :=
  match type with
  | some .featuresRequest => featuresNext s
  | some .ifAddressReq => ifAddressNext s
  | some .redistributeRequest => redistributeNext s
  | _ => none

/-- The sibling an egress message is queued at, with the sequence number it is compared with. -/
def egressSib (c : State) (msg : Rfpbuf) (sr : SibRouter) : Option SibRouter :=
  match msg.type with
  | some .ipv6RouteSetRequest => some sr
  | some .forwardOspf6 => some (syncFirstEgress c sr)
  | _ => none

/-- The state in which a message makes `sib_router_process_packet` call `vote_majority`. -/
def voteEntry (k : SibRef) (msg : Rfpbuf) (c : State) : Option State :=
  (c.sib k).bind fun sr => (egressSib c msg sr).bind fun sr =>
    let c' := c.setSib k (appendMsgToRcvdQueue sr msg)
    if msg.xid = sr.currentEgressXid ∧ readyToVote c' then some c' else none

/-- The effects of a message `msg` from the sibling `sr` at `k`, short of a vote. -/
inductive Handled (k : SibRef) (msg : Rfpbuf) (sr : SibRouter) (c : State) : State → Prop where
  | ignored : Handled k msg sr c c
  | moved {new : SibRouterState} (hxid : msg.xid = sr.currentEgressXid)
      (hnext : requestNext msg.type sr.state = some new) :
      Handled k msg sr c ((c.addRouting (routingDelta sr.state new)).setSib k ((bumpEgressXid sr).moved new))
  | bumped (htype : msg.type = some .ifAddressReq) (hxid : msg.xid = sr.currentEgressXid)
      (hnext : ifAddressNext sr.state = none) : Handled k msg sr c (c.setSib k (bumpEgressXid sr))
  | queued {sr' : SibRouter} (hsib : egressSib c msg sr = some sr')
      (hxid : sr'.currentEgressXid ≤ msg.xid) :
      Handled k msg sr c (c.setSib k (appendMsgToRcvdQueue sr' msg))
  | rejected {sr' : SibRouter} (hsib : egressSib c msg sr = some sr')
      (hxid : msg.xid < sr'.currentEgressXid) : Handled k msg sr c (c.setSib k sr')
  | acked : Handled k msg sr c (c.setSib k { sr with currentIngressAckRcvd := true })
  | leader (htype : msg.type = some .redistributeLeaderElect) (b : Bool) :
      Handled k msg sr c { c.setSib k { sr with isLeader := b } with
        leaderSibling := if b then some k else c.leaderSibling }

section Packet

variable {k : SibRef} {msg : Rfpbuf} {sr : SibRouter} {c c' : State} {env : Env}

theorem handled_of_handshakeRequest {expects : SibRouterState → Bool} {reply : Exec Output Unit}
    {next : SibRouterState → Option SibRouterState}
    (hnext : ∀ new, next sr.state = some new → requestNext msg.type sr.state = some new)
    (hnone : expects sr.state = true → next sr.state = none →
      msg.type = some .ifAddressReq ∧ ifAddressNext sr.state = none)
    (h : (handshakeRequest k msg.xid expects reply next sr c).result = some c') :
    Handled k msg sr c c' := by
  unfold handshakeRequest at h
  split_ifs at h with hcond
  · obtain ⟨_, -, h⟩ := Exec.result_bind_eq_some.mp h
    split at h
    · next new hnew =>
        obtain ⟨p, htrans, h⟩ := Exec.result_bind_eq_some.mp h
        cases result_stateTransition htrans
        cases h
        exact .moved hcond.1 (hnext new hnew)
    · next hnew =>
        cases h
        obtain ⟨htype, hif⟩ := hnone hcond.2 hnew
        exact .bumped htype hcond.1 hif
  · cases h
    exact .ignored

theorem handled_of_egressMsg {sr' : SibRouter} (hsr : c.sib k = some sr)
    (hsib : egressSib c msg sr = some sr') (hnone : voteEntry k msg c = none)
    (h : (egressMsg env k msg sr' c).result = some c') : Handled k msg sr c c' := by
  unfold egressMsg at h
  split_ifs at h with heq hready hlt
  · simp [voteEntry, hsr, hsib, heq, hready] at hnone
  · cases h
    exact .queued hsib (heq ▸ UInt32.le_refl _)
  · cases h
    exact .queued hsib (UInt32.le_of_lt hlt)
  · cases h
    exact .rejected hsib (by
      rcases UInt32.lt_or_lt_of_ne heq with h | h
      · exact h
      · exact absurd h hlt)

/-- Every effect of a message that leads to no vote is one of those listed. -/
theorem handled_of_result (hsr : c.sib k = some sr) (hnone : voteEntry k msg c = none)
    (h : (sibRouterProcessPacket env k msg c).result = some c') : Handled k msg sr c c' := by
  rw [sibRouterProcessPacket, hsr, Exec.deref_some_bind] at h
  split at h
  · next ht =>
      refine handled_of_handshakeRequest (fun new hnew => ?_) (fun hexp hnew => ?_) h
      · rw [ht]; exact hnew
      · cases hs : sr.state <;> simp [hs, featuresExpects, featuresNext] at hexp hnew
  · next ht =>
      refine handled_of_handshakeRequest (fun new hnew => ?_) (fun _ hnew => ⟨ht, hnew⟩) h
      rw [ht]; exact hnew
  · next ht =>
      refine handled_of_handshakeRequest (fun new hnew => ?_) (fun hexp hnew => ?_) h
      · rw [ht]; exact hnew
      · cases hs : sr.state <;> simp [hs, redistributeExpects, redistributeNext] at hexp hnew
  · next ht => exact handled_of_egressMsg hsr (by rw [egressSib, ht]) hnone h
  · next ht => exact handled_of_egressMsg hsr (by rw [egressSib, ht]) hnone h
  · cases h
    exact .ignored
  · cases h
    unfold ackMsg
    split_ifs
    · exact .acked
    · exact .ignored
  · next ht =>
      obtain ⟨_, -, h⟩ := Exec.result_bind_eq_some.mp h
      cases h
      exact .leader ht _
  · cases h
    exact .ignored

theorem voteEntry_eq_some : voteEntry k msg c = some c' ↔ ∃ sr sr', c.sib k = some sr ∧
    egressSib c msg sr = some sr' ∧ msg.xid = sr'.currentEgressXid ∧ readyToVote c' = true ∧
    c' = c.setSib k (appendMsgToRcvdQueue sr' msg) := by
  simp only [voteEntry, Option.bind_eq_some_iff, Option.ite_none_right_eq_some, Option.some.injEq]
  constructor
  · rintro ⟨sr, hsr, sr', hsib, ⟨hxid, hready⟩, rfl⟩
    exact ⟨sr, sr', hsr, hsib, hxid, hready, rfl⟩
  · rintro ⟨sr, sr', hsr, hsib, hxid, hready, rfl⟩
    exact ⟨sr, hsr, sr', hsib, ⟨hxid, hready⟩, rfl⟩

/-- An egress message is handled by `egressMsg`, whichever of the two types it has. -/
theorem sibRouterProcessPacket_of_egressSib {sr' : SibRouter} (hsr : c.sib k = some sr)
    (hsib : egressSib c msg sr = some sr') :
    sibRouterProcessPacket env k msg c = egressMsg env k msg sr' c := by
  rw [sibRouterProcessPacket, hsr, Exec.deref_some_bind]
  unfold egressSib at hsib
  split at hsib
  · next ht =>
      cases hsib
      simp only [ht]
  · next ht =>
      cases hsib
      simp only [ht]
  · cases hsib

/-- A message that gets as far as `vote_majority` does nothing else but call it. -/
theorem sibRouterProcessPacket_of_voteEntry (h : voteEntry k msg c = some c') :
    sibRouterProcessPacket env k msg c = voteMajority env c' := by
  obtain ⟨sr, sr', hsr, hsib, hxid, hready, rfl⟩ := voteEntry_eq_some.mp h
  rw [sibRouterProcessPacket_of_egressSib hsr hsib, egressMsg, if_pos hxid, if_pos hready]

/-- The outputs that are not those of `vote_majority`; among them only BGP packets go to the routers. -/
def Output.Unvoted : Output → Prop
  | .routerForward .voteMajority _ _ => False
  | .routerForward .forwardBgp _ msg => msg.type = some .forwardBgp
  | .achievedMajority => False
  | .dbSetEgressXid _ => False
  | _ => True

theorem unvoted_of_handshakeRequest {xid : UInt32} {expects : SibRouterState → Bool}
    {reply : Exec Output Unit} {next : SibRouterState → Option SibRouterState}
    (hreply : ∀ o ∈ reply.outs, o.Unvoted) {o : Output}
    (h : o ∈ (handshakeRequest k xid expects reply next sr c).outs) : o.Unvoted := by
  unfold handshakeRequest at h
  split_ifs at h
  · rcases Exec.mem_outs_bind.mp h with h | ⟨_, -, h⟩
    · exact hreply o h
    · split at h
      · rcases Exec.mem_outs_bind.mp h with h | ⟨_, -, h⟩
        · obtain ⟨i, x, rfl⟩ := outs_stateTransition h
          trivial
        · cases h
      · cases h
  · cases h

/-- Without a call of `vote_majority` none of its outputs is made. -/
theorem unvoted_of_voteEntry_eq_none (h : voteEntry k msg c = none) {o : Output}
    (ho : o ∈ (sibRouterProcessPacket env k msg c).outs) : o.Unvoted := by
  cases hsr : c.sib k with
  | none =>
      rw [sibRouterProcessPacket, hsr, Exec.bind_of_none _ rfl] at ho
      cases ho
  | some sr =>
      cases hsib : egressSib c msg sr with
      | some sr' =>
          rw [sibRouterProcessPacket_of_egressSib hsr hsib, egressMsg] at ho
          split_ifs at ho with hxid hready
          · rw [voteEntry_eq_some.mpr ⟨sr, sr', hsr, hsib, hxid, hready, rfl⟩] at h
            cases h
          all_goals cases ho
      | none =>
          rw [sibRouterProcessPacket, hsr, Exec.deref_some_bind] at ho
          split at ho
          · refine unvoted_of_handshakeRequest (fun o ho => ?_) ho
            obtain ⟨i, -, rfl⟩ := List.mem_map.mp ((outs_sendEach_inOrder 0 _).subset ho)
            trivial
          · refine unvoted_of_handshakeRequest (fun o ho => ?_) ho
            simp only [sibRouterIfAddrAdd, Exec.outs_emits, List.mem_flatMap, List.mem_map] at ho
            obtain ⟨r, -, ifp, -, ifc, -, rfl⟩ := ho
            trivial
          · refine unvoted_of_handshakeRequest (fun o ho => ?_) ho
            obtain ⟨r, -, rfl⟩ := List.mem_map.mp ho
            trivial
          · next ht => simp [egressSib, ht] at hsib
          · next ht => simp [egressSib, ht] at hsib
          · next ht =>
              rw [forwardBgp, Exec.outs_emits_bind, Exec.outs_pure, List.append_nil] at ho
              obtain ⟨i, -, rfl⟩ := List.mem_map.mp ho
              exact ht
          · cases ho
          · rcases Exec.mem_outs_bind.mp ho with ho | ⟨_, -, ho⟩ <;> cases ho
          · cases ho

end Packet

/-- The call of `vote_majority` an event leads to. -/
def voteOf (c : State) : Event → Option (State × Env)
  | .recv k msg env =>
    if (c.sib k).any (·.state ≠ .disconnected) then (voteEntry k msg c).map (·, env) else none
  | _ => none

/-- The state in which, after a run, one more event calls `vote_majority`. -/
def voteAfter (init : State) (es : List Event) (e : Event) : Option State :=
  (machine.run init es).result.bind fun c => (voteOf c e).map Prod.fst

/-- What a reused slot starts from. -/
def SibRouter.reused (sr : SibRouter) : SibRouter :=
  { sr with
    state := .connecting
    msgsRcvdQueue := []
    currentEgressXid := 0
    waitingOnFirstEgressMsg := false
    currentIngressXid := 0 }

/-- The effects of an event, short of a vote. -/
inductive Stepped (c : State) : Event → State → Prop where
  | ignored (e : Event) : Stepped c e c
  | reused {raw sr : SibRouter} {i : Nat} (hsr : c.ospf6Siblings[i]? = some sr)
      (hstate : sr.state = .disconnected) :
      Stepped c (.acceptOspf6 raw) (c.setSib (.ospf6 i) sr.reused)
  | openedOspf6 {raw : SibRouter} (hlt : c.nOspf6Siblings < maxOspf6Siblings)
      (hconn : ∀ sr ∈ c.ospf6Siblings, sr.state ≠ .disconnected) :
      Stepped c (.acceptOspf6 raw) { c with
        nOspf6Siblings := c.nOspf6Siblings + 1
        ospf6Siblings := c.ospf6Siblings ++ [{ raw.reused with isLeader := false }] }
  | openedBgp {raw : SibRouter} :
      Stepped c (.acceptBgp raw) { c with
        nBgpSiblings := c.nBgpSiblings + 1
        bgpSiblings := c.bgpSiblings ++ [{ raw.reused with isLeader := false }] }
  | started {k : SibRef} {sr : SibRouter} (hsr : c.sib k = some sr) (hstate : sr.state = .connecting) :
      Stepped c (.start k) (c.setSib k { sr with state := .connected })
  | handled {k : SibRef} {msg : Rfpbuf} {env : Env} {sr : SibRouter} {c' : State} (hsr : c.sib k = some sr)
      (hstate : sr.state ≠ .disconnected) (h : Handled k msg sr c c') : Stepped c (.recv k msg env) c'
  | destroyed {k : SibRef} {sr : SibRouter} (hsr : c.sib k = some sr) (hstate : sr.state ≠ .disconnected) :
      Stepped c (.destroy k) ((c.addRouting (routingDelta sr.state .disconnected)).setSib k
        { sr with state := .disconnected, waitingOnFirstEgressMsg := false, msgsRcvdQueue := [] })
  | ingress {msg : Rfpbuf} {xid : UInt32} :
      Stepped c (.ingress msg xid) { c with
        ospf6Siblings := c.ospf6Siblings.map (SibRouter.ingressSent xid) }
  | routerSide {routers : List Router} {rib : List RibRoute} :
      Stepped c (.routerSide routers rib) { c with routers := routers, rib := rib }

theorem addRouting_zero (c : State) : c.addRouting 0 = c := by
  simp [State.addRouting]

theorem routingDelta_connecting (s : SibRouterState) : routingDelta s .connecting = 0 := by
  cases s <;> rfl

theorem routingDelta_connected (s : SibRouterState) : routingDelta s .connected = 0 := by
  cases s <;> rfl

theorem stepped_of_acceptOspf6 {c c' : State} {raw : SibRouter}
    (h : (sibListenerAcceptOspf6 raw c).result = some c') : Stepped c (.acceptOspf6 raw) c' := by
  unfold sibListenerAcceptOspf6 at h
  split at h
  · next i hfind =>
      obtain ⟨sr, hsr, h⟩ := Exec.result_bind_eq_some.mp h
      obtain ⟨p, hreuse, h⟩ := Exec.result_bind_eq_some.mp h
      obtain ⟨q, htrans, hp⟩ := Exec.result_bind_eq_some.mp hreuse
      cases result_stateTransition htrans
      cases hp
      cases h
      rw [routingDelta_connecting, addRouting_zero]
      have hstate : sr.state = .disconnected := by
        obtain ⟨hi, hp, -⟩ := List.findIdx?_eq_some_iff_getElem.mp hfind
        rw [Exec.result_deref, List.getElem?_eq_getElem hi] at hsr
        cases hsr
        exact of_decide_eq_true hp
      have hreused : Stepped c (.acceptOspf6 raw) (c.setSib (.ospf6 i) sr.reused) := .reused hsr hstate
      exact hreused
  · next hfind =>
      obtain ⟨p, hcreate, h⟩ := Exec.result_bind_eq_some.mp h
      obtain ⟨q, htrans, hp⟩ := Exec.result_bind_eq_some.mp hcreate
      cases result_stateTransition htrans
      cases hp
      obtain ⟨_, hlt, h⟩ := Exec.result_bind_eq_some.mp h
      cases h
      rw [routingDelta_connecting, addRouting_zero]
      refine .openedOspf6 (Exec.result_require_eq_some.mp hlt) fun sr hsr => ?_
      have := List.findIdx?_eq_none_iff.mp hfind sr hsr
      exact of_decide_eq_false this

theorem stepped_of_acceptBgp {c c' : State} {raw : SibRouter}
    (h : (sibListenerAcceptBgp raw c).result = some c') : Stepped c (.acceptBgp raw) c' := by
  obtain ⟨p, hcreate, h⟩ := Exec.result_bind_eq_some.mp h
  obtain ⟨q, htrans, hp⟩ := Exec.result_bind_eq_some.mp hcreate
  cases result_stateTransition htrans
  cases hp
  obtain ⟨_, -, h⟩ := Exec.result_bind_eq_some.mp h
  cases h
  rw [routingDelta_connecting, addRouting_zero]
  exact .openedBgp

/-- Every effect of an event that leads to no vote is one of those listed. -/
theorem stepped_of_voteOf_eq_none {c c' : State} {e : Event} (hnone : voteOf c e = none)
    (h : (machine.step c e).result = some c') : Stepped c e c' := by
  cases e with
  | acceptOspf6 raw => exact stepped_of_acceptOspf6 h
  | acceptBgp raw => exact stepped_of_acceptBgp h
  | start k =>
      simp only [machine, step] at h
      split at h
      · next sr hsr =>
          split_ifs at h with hstate
          · obtain ⟨p, htrans, h⟩ := Exec.result_bind_eq_some.mp h
            cases result_stateTransition htrans
            cases h
            rw [routingDelta_connected, addRouting_zero]
            have := Stepped.started hsr hstate
            simpa [SibRouter.moved, entersRouting] using this
          · cases h
            exact .ignored _
      · cases h
        exact .ignored _
  | recv k msg env =>
      simp only [machine, step] at h
      split at h
      · next sr hsr =>
          split_ifs at h with hstate
          · cases h
            exact .ignored _
          · have hentry : voteEntry k msg c = none := by
              simpa [voteOf, hsr, hstate] using hnone
            exact .handled hsr hstate (handled_of_result hsr hentry h)
      · cases h
        exact .ignored _
  | destroy k =>
      simp only [machine, step] at h
      split at h
      · next sr hsr =>
          split_ifs at h with hstate
          · cases h
            exact .ignored _
          · rw [sibRouterDestroy, hsr, Exec.deref_some_bind] at h
            obtain ⟨p, htrans, h⟩ := Exec.result_bind_eq_some.mp h
            cases result_stateTransition htrans
            cases h
            exact .destroyed hsr hstate
      · cases h
        exact .ignored _
  | ingress msg xid =>
      cases h
      exact .ingress
  | routerSide routers rib =>
      cases h
      exact .routerSide

theorem step_of_voteOf {c c' : State} {e : Event} {env : Env} (h : voteOf c e = some (c', env)) :
    machine.step c e = voteMajority env c' := by
  cases e with
  | recv k msg env' =>
      simp only [voteOf, Option.ite_none_right_eq_some, Option.map_eq_some_iff, Prod.mk.injEq] at h
      obtain ⟨hany, c1, hentry, rfl, rfl⟩ := h
      cases hsr : c.sib k with
      | none => simp [hsr] at hany
      | some sr =>
          have hstate : ¬ sr.state = .disconnected := by simpa [hsr] using hany
          simp only [machine, step, hsr, hstate, if_false]
          exact sibRouterProcessPacket_of_voteEntry hentry
  | _ => cases h

/-- A vote is taken in the state that the message leaves when it is only queued. -/
theorem stepped_of_voteOf {c c' : State} {e : Event} {env : Env} (h : voteOf c e = some (c', env)) :
    Stepped c e c' := by
  cases e with
  | recv k msg env' =>
      simp only [voteOf, Option.ite_none_right_eq_some, Option.map_eq_some_iff, Prod.mk.injEq] at h
      obtain ⟨hany, c1, hentry, rfl, rfl⟩ := h
      obtain ⟨sr, sr', hsr, hsib, hxid, -, rfl⟩ := voteEntry_eq_some.mp hentry
      have hstate : ¬ sr.state = .disconnected := by simpa [hsr] using hany
      exact .handled hsr hstate (.queued hsib (hxid ▸ UInt32.le_refl _))
  | _ => cases h

/-- All configured siblings are there when a vote is taken. -/
theorem readyToVote_of_voteOf {c c' : State} {e : Event} {env : Env} (h : voteOf c e = some (c', env)) :
    readyToVote c' = true := by
  cases e with
  | recv k msg env' =>
      simp only [voteOf, Option.ite_none_right_eq_some, Option.map_eq_some_iff, Prod.mk.injEq] at h
      obtain ⟨-, c1, hentry, rfl, -⟩ := h
      obtain ⟨sr, sr', -, -, -, hready, -⟩ := voteEntry_eq_some.mp hentry
      exact hready
  | _ => cases h

/-- An event that does not lead to a vote makes none of its outputs. -/
theorem unvoted_of_voteOf_eq_none {c : State} {e : Event} (h : voteOf c e = none) {o : Output}
    (ho : o ∈ (machine.step c e).outs) : o.Unvoted := by
  have htrans : ∀ {sr new c}, o ∈ (stateTransition sr new c).outs → o.Unvoted := fun ho => by
    obtain ⟨i, xid, rfl⟩ := outs_stateTransition ho
    trivial
  cases e with
  | acceptOspf6 raw =>
      simp only [machine, step, sibListenerAcceptOspf6] at ho
      split at ho
      · simp only [sibRouterReuse, Exec.mem_outs_bind, Exec.outs_deref, Exec.outs_pure, List.not_mem_nil,
          false_or, and_false, exists_false, or_false] at ho
        obtain ⟨sr, -, ho⟩ := ho
        exact htrans ho
      · simp only [sibRouterCreate, Exec.mem_outs_bind, Exec.outs_require, Exec.outs_pure, List.not_mem_nil,
          and_false, exists_false, or_false] at ho
        exact htrans ho
  | acceptBgp raw =>
      simp only [machine, step, sibListenerAcceptBgp, sibRouterCreate, Exec.mem_outs_bind, Exec.outs_require,
        Exec.outs_pure, List.not_mem_nil, and_false, exists_false, or_false] at ho
      exact htrans ho
  | start k =>
      simp only [machine, step] at ho
      split at ho
      · split_ifs at ho
        · rcases Exec.mem_outs_bind.mp ho with ho | ⟨_, -, ho⟩
          · exact htrans ho
          · cases ho
        · cases ho
      · cases ho
  | recv k msg env =>
      simp only [machine, step] at ho
      split at ho
      · next sr hsr =>
          split_ifs at ho with hstate
          · cases ho
          · simp only [voteOf, hsr, Option.any_some, hstate, ne_eq, not_false_eq_true, decide_true, if_true,
              Option.map_eq_none_iff] at h
            exact unvoted_of_voteEntry_eq_none h ho
      · cases ho
  | destroy k =>
      simp only [machine, step] at ho
      split at ho
      · split_ifs at ho
        · cases ho
        · simp only [sibRouterDestroy, Exec.mem_outs_bind, Exec.outs_deref, Exec.outs_pure, List.not_mem_nil,
            false_or, and_false, exists_false, or_false] at ho
          obtain ⟨sr, -, ho⟩ := ho
          exact htrans ho
      · cases ho
  | ingress msg xid =>
      simp only [machine, step, sibRouterForwardOspf6, Exec.outs_emits_bind, Exec.outs_pure, List.append_nil]
        at ho
      obtain ⟨i, -, rfl⟩ := List.mem_map.mp ho
      trivial
  | routerSide routers rib => cases ho

/-- An event has one of the effects listed and makes none of the outputs of a vote, or it takes, from
a state with such an effect, the step of a won vote. -/
theorem step_cases {c c' : State} {e : Event} (h : (machine.step c e).result = some c') :
    (Stepped c e c' ∧ ∀ o ∈ (machine.step c e).outs, o.Unvoted) ∨
      ∃ c1 env a, voteOf c e = some (c1, env) ∧ winner c1 = some a ∧ Stepped c e c1 ∧ c' = c1.voted := by
  cases hvote : voteOf c e with
  | none => exact Or.inl ⟨stepped_of_voteOf_eq_none hvote h, fun o ho => unvoted_of_voteOf_eq_none hvote ho⟩
  | some p =>
      obtain ⟨c1, env⟩ := p
      have hstep := stepped_of_voteOf hvote
      rw [step_of_voteOf hvote] at h ⊢
      rcases result_voteMajority h with ⟨hwin, rfl⟩ | ⟨a, hwin, rfl, -⟩
      · refine Or.inl ⟨hstep, fun o ho => ?_⟩
        rw [outs_voteMajority_of_winner_eq_none hwin] at ho
        cases ho
      · exact Or.inr ⟨c1, env, a, rfl, hwin, hstep, rfl⟩

/-- The rule for what an event keeps: the effects keep it, and so does the step of a won vote. -/
theorem step_invariant {P : State → Prop} {c c' : State} {e : Event}
    (hstep : ∀ c', Stepped c e c' → P c') (hvote : ∀ c', P c' → P c'.voted)
    (h : (machine.step c e).result = some c') : P c' := by
  rcases step_cases h with ⟨hc', -⟩ | ⟨c1, env, a, -, -, hc1, rfl⟩
  · exact hstep c' hc'
  · exact hvote c1 (hstep c1 hc1)

/-! ### One sibling -/

theorem sib_voted (c : State) (k : SibRef) : c.voted.sib k =
    match k with
    | .ospf6 _ => (c.sib k).map fun sr => bumpEgressXid (popHead sr)
    | .bgp _ => c.sib k := by
  cases k with
  | ospf6 i => simp [State.voted, Function.comp_def]
  | bgp i => rfl

/-- What an event can have made of the sibling at `k`. -/
inductive SlotStep (c : State) : Event → SibRef → SibRouter → Prop where
  | same {e : Event} {k : SibRef} {sr : SibRouter} (hsr : c.sib k = some sr) : SlotStep c e k sr
  | opened {e : Event} {k : SibRef} (raw : SibRouter) (hsr : c.sib k = none) :
      SlotStep c e k { raw.reused with isLeader := false }
  | reused {raw sr : SibRouter} {k : SibRef} (hsr : c.sib k = some sr) (hstate : sr.state = .disconnected) :
      SlotStep c (.acceptOspf6 raw) k sr.reused
  | started {k : SibRef} {sr : SibRouter} (hsr : c.sib k = some sr) (hstate : sr.state = .connecting) :
      SlotStep c (.start k) k { sr with state := .connected }
  | destroyed {k : SibRef} {sr : SibRouter} (hsr : c.sib k = some sr) : SlotStep c (.destroy k) k
        { sr with state := .disconnected, waitingOnFirstEgressMsg := false, msgsRcvdQueue := [] }
  | ingressSent {msg : Rfpbuf} {xid : UInt32} {k : SibRef} {sr : SibRouter} (hsr : c.sib k = some sr) :
      SlotStep c (.ingress msg xid) k (sr.ingressSent xid)
  | moved {k : SibRef} {msg : Rfpbuf} {env : Env} {sr : SibRouter} {new : SibRouterState}
      (hsr : c.sib k = some sr) (hxid : msg.xid = sr.currentEgressXid)
      (hnext : requestNext msg.type sr.state = some new) :
      SlotStep c (.recv k msg env) k ((bumpEgressXid sr).moved new)
  | bumped {k : SibRef} {msg : Rfpbuf} {env : Env} {sr : SibRouter} (hsr : c.sib k = some sr)
      (htype : msg.type = some .ifAddressReq) (hxid : msg.xid = sr.currentEgressXid)
      (hnext : ifAddressNext sr.state = none) : SlotStep c (.recv k msg env) k (bumpEgressXid sr)
  | queued {k : SibRef} {msg : Rfpbuf} {env : Env} {sr sr' : SibRouter} (hsr : c.sib k = some sr)
      (hstate : sr.state ≠ .disconnected) (hsib : egressSib c msg sr = some sr')
      (hxid : sr'.currentEgressXid ≤ msg.xid) :
      SlotStep c (.recv k msg env) k (appendMsgToRcvdQueue sr' msg)
  | rejected {k : SibRef} {msg : Rfpbuf} {env : Env} {sr sr' : SibRouter} (hsr : c.sib k = some sr)
      (hsib : egressSib c msg sr = some sr') (hxid : msg.xid < sr'.currentEgressXid) :
      SlotStep c (.recv k msg env) k sr'
  | acked {k : SibRef} {msg : Rfpbuf} {env : Env} {sr : SibRouter} (hsr : c.sib k = some sr) :
      SlotStep c (.recv k msg env) k { sr with currentIngressAckRcvd := true }
  | leader {k : SibRef} {msg : Rfpbuf} {env : Env} {sr : SibRouter} (hsr : c.sib k = some sr)
      (htype : msg.type = some .redistributeLeaderElect) (b : Bool) :
      SlotStep c (.recv k msg env) k { sr with isLeader := b }

/-- A write at one slot leaves the others as they were. -/
theorem slotStep_setSib {c : State} {e : Event} {k k' : SibRef} {old sr new : SibRouter}
    (hold : c.sib k = some old) (hself : SlotStep c e k sr) (h : (c.setSib k sr).sib k' = some new) :
    SlotStep c e k' new := by
  rw [State.sib_setSib hold] at h
  split_ifs at h with hk
  · cases h
    rw [hk]
    exact hself
  · exact .same h

theorem getElem?_concat_eq_some {α : Type} {l : List α} {x y : α} {i : Nat} (h : (l ++ [x])[i]? = some y) :
    l[i]? = some y ∨ (l[i]? = none ∧ y = x) := by
  rw [List.getElem?_append] at h
  split_ifs at h with hi
  · exact Or.inl h
  · refine Or.inr ⟨List.getElem?_eq_none (Nat.le_of_not_lt hi), ?_⟩
    exact List.mem_singleton.mp (List.mem_of_getElem? h)

theorem Stepped.slot {c c' : State} {e : Event} (h : Stepped c e c') {k : SibRef} {new : SibRouter}
    (hnew : c'.sib k = some new) : SlotStep c e k new := by
  cases h with
  | ignored => exact .same hnew
  | reused hsr hstate => exact slotStep_setSib (k := .ospf6 _) hsr (.reused hsr hstate) hnew
  | openedOspf6 hlt hconn =>
      cases k with
      | ospf6 i =>
          rcases getElem?_concat_eq_some hnew with hold | ⟨hnone, rfl⟩
          · exact .same hold
          · exact .opened _ hnone
      | bgp i => exact .same hnew
  | openedBgp =>
      cases k with
      | ospf6 i => exact .same hnew
      | bgp i =>
          rcases getElem?_concat_eq_some hnew with hold | ⟨hnone, rfl⟩
          · exact .same hold
          · exact .opened _ hnone
  | started hsr hstate => exact slotStep_setSib hsr (.started hsr hstate) hnew
  | handled hsr hstate hhandled =>
      cases hhandled with
      | ignored => exact .same hnew
      | moved hxid hnext =>
          rw [State.setSib_addRouting, State.sib_addRouting] at hnew
          exact slotStep_setSib hsr (.moved hsr hxid hnext) hnew
      | bumped htype hxid hnext => exact slotStep_setSib hsr (.bumped hsr htype hxid hnext) hnew
      | queued hsib hxid => exact slotStep_setSib hsr (.queued hsr hstate hsib hxid) hnew
      | rejected hsib hxid => exact slotStep_setSib hsr (.rejected hsr hsib hxid) hnew
      | acked => exact slotStep_setSib hsr (.acked hsr) hnew
      | leader htype b =>
          refine slotStep_setSib hsr (.leader hsr htype b) ?_
          cases k <;> exact hnew
  | destroyed hsr hstate =>
      rw [State.setSib_addRouting, State.sib_addRouting] at hnew
      exact slotStep_setSib hsr (.destroyed hsr) hnew
  | ingress =>
      cases k with
      | ospf6 i =>
          simp only [State.sib_ospf6, List.getElem?_map, Option.map_eq_some_iff] at hnew
          obtain ⟨old, hold, rfl⟩ := hnew
          exact .ingressSent hold
      | bgp i => exact .same hnew
  | routerSide => exact .same (by cases k <;> exact hnew)

section EgressSib

variable {c : State} {msg : Rfpbuf} {sr sr' : SibRouter}

/-- An egress message comes to a sibling that is as it was, or that has just stopped waiting. -/
theorem egressSib_cases (h : egressSib c msg sr = some sr') :
    sr' = sr ∨ (sr.waitingOnFirstEgressMsg = true ∧ sr' = { sr with
      currentEgressXid :=
        if sr.isLeader then sr.currentEgressXid else (leaderEgressXid c).getD sr.currentEgressXid
      waitingOnFirstEgressMsg := false }) := by
  unfold egressSib at h
  split at h
  · exact Or.inl (Option.some.inj h).symm
  · unfold syncFirstEgress at h
    by_cases hw : sr.waitingOnFirstEgressMsg = true
    · rw [if_pos hw] at h
      exact Or.inr ⟨hw, (Option.some.inj h).symm⟩
    · rw [if_neg hw] at h
      exact Or.inl (Option.some.inj h).symm
  · cases h

theorem egressSib_state (h : egressSib c msg sr = some sr') : sr'.state = sr.state := by
  rcases egressSib_cases h with rfl | ⟨-, rfl⟩ <;> rfl

theorem egressSib_queue (h : egressSib c msg sr = some sr') : sr'.msgsRcvdQueue = sr.msgsRcvdQueue := by
  rcases egressSib_cases h with rfl | ⟨-, rfl⟩ <;> rfl

theorem egressSib_isLeader (h : egressSib c msg sr = some sr') : sr'.isLeader = sr.isLeader := by
  rcases egressSib_cases h with rfl | ⟨-, rfl⟩ <;> rfl

end EgressSib

/-- What every sibling of the two tables keeps. -/
structure SibRouter.Ok (sr : SibRouter) : Prop where
  queue_eq_nil : sr.state = .disconnected → sr.msgsRcvdQueue = []
  routing_of_waiting : sr.waitingOnFirstEgressMsg = true → sr.state = .routing

/-- What every state of the controller keeps. -/
structure State.Ok (c : State) : Prop where
  sib_ok : ∀ k sr, c.sib k = some sr → sr.Ok
  length_eq : c.ospf6Siblings.length = c.nOspf6Siblings

theorem State.Ok.queue_eq_nil {c : State} (h : c.Ok) (sr : SibRouter) (hsr : sr ∈ c.ospf6Siblings) :
    sr.state = .disconnected → sr.msgsRcvdQueue = [] := by
  obtain ⟨i, hi⟩ := List.mem_iff_getElem?.mp hsr
  exact (h.sib_ok (.ospf6 i) sr hi).queue_eq_nil

theorem SibRouter.Ok.of_egressSib {c : State} {msg : Rfpbuf} {sr sr' : SibRouter} (h : sr.Ok)
    (hsib : egressSib c msg sr = some sr') : sr'.Ok := by
  rcases egressSib_cases hsib with rfl | ⟨-, rfl⟩
  · exact h
  · exact ⟨h.queue_eq_nil, by simp⟩

theorem requestNext_ne {type : Option RfpType} {s new : SibRouterState} (h : requestNext type s = some new) :
    new ≠ .disconnected ∧ s ≠ .routing ∧ s ≠ .disconnected := by
  unfold requestNext at h
  cases s <;> split at h <;> simp [featuresNext, ifAddressNext, redistributeNext] at h <;> simp [← h]

/-- No request leads to the disconnected state, and one that waits afterwards is routing. -/
theorem SibRouter.Ok.moved {sr : SibRouter} (h : sr.Ok) {type : Option RfpType} {new : SibRouterState}
    (hnext : requestNext type sr.state = some new) : ((bumpEgressXid sr).moved new).Ok := by
  obtain ⟨hnew, hold, -⟩ := requestNext_ne hnext
  refine ⟨fun hd => absurd hd hnew, fun hw => ?_⟩
  simp only [SibRouter.moved, Bool.or_eq_true, entersRouting, decide_eq_true_eq] at hw
  rcases hw with hw | hw
  · exact hw.2
  · exact absurd (h.routing_of_waiting hw) hold

theorem SibRouter.ok_reused (sr : SibRouter) (b : Bool) : { sr.reused with isLeader := b }.Ok :=
  ⟨fun _ => rfl, fun h => by cases h⟩

theorem SibRouter.Ok.append {sr sr' : SibRouter} (h : sr.Ok) {c : State} {msg : Rfpbuf}
    (hstate : sr.state ≠ .disconnected) (hsib : egressSib c msg sr = some sr') :
    (appendMsgToRcvdQueue sr' msg).Ok := by
  refine ⟨fun hd => absurd hd ?_, (h.of_egressSib hsib).routing_of_waiting⟩
  show sr'.state ≠ _
  rw [egressSib_state hsib]
  exact hstate

theorem SibRouter.Ok.pop {sr : SibRouter} (h : sr.Ok) : (bumpEgressXid (popHead sr)).Ok := by
  refine ⟨fun hd => ?_, h.routing_of_waiting⟩
  simp [bumpEgressXid, popHead, h.queue_eq_nil hd]

theorem SlotStep.ok {c : State} {e : Event} {k : SibRef} {new : SibRouter} (h : SlotStep c e k new)
    (hok : ∀ sr, c.sib k = some sr → sr.Ok) : new.Ok := by
  cases h with
  | same hsr => exact hok _ hsr
  | opened raw hsr => exact SibRouter.ok_reused raw false
  | reused hsr hstate => exact SibRouter.ok_reused _ _
  | started hsr hstate =>
      refine ⟨nofun, fun hw => ?_⟩
      have := (hok _ hsr).routing_of_waiting hw
      rw [hstate] at this
      cases this
  | destroyed hsr => exact ⟨fun _ => rfl, fun hw => by cases hw⟩
  | ingressSent hsr =>
      obtain ⟨hqueue, hwait⟩ := hok _ hsr
      unfold SibRouter.ingressSent
      split_ifs <;> exact ⟨hqueue, hwait⟩
  | moved hsr hxid hnext => exact (hok _ hsr).moved hnext
  | bumped hsr htype hxid hnext => exact ⟨(hok _ hsr).queue_eq_nil, (hok _ hsr).routing_of_waiting⟩
  | queued hsr hstate hsib hxid => exact (hok _ hsr).append hstate hsib
  | rejected hsr hsib hxid => exact (hok _ hsr).of_egressSib hsib
  | acked hsr => exact ⟨(hok _ hsr).queue_eq_nil, (hok _ hsr).routing_of_waiting⟩
  | leader hsr htype b => exact ⟨(hok _ hsr).queue_eq_nil, (hok _ hsr).routing_of_waiting⟩

/-- The table of OSPF6 siblings only grows, by one slot at a time, and the counter with it. -/
theorem Stepped.length_eq {c c' : State} {e : Event} (h : Stepped c e c')
    (hlen : c.ospf6Siblings.length = c.nOspf6Siblings) : c'.ospf6Siblings.length = c'.nOspf6Siblings := by
  cases h with
  | handled hsr hstate hhandled => cases hhandled <;> simp [State.addRouting, hlen]
  | _ => simp [State.addRouting, hlen]

/-- The tables stay well formed. -/
theorem State.Ok.stepped {c c' : State} (h : c.Ok) {e : Event} (hstep : Stepped c e c') : c'.Ok :=
  ⟨fun k _ hnew => (hstep.slot hnew).ok fun sr hsr => h.sib_ok k sr hsr, hstep.length_eq h.length_eq⟩

theorem State.Ok.voted {c : State} (h : c.Ok) : c.voted.Ok := by
  refine ⟨fun k sr hsr => ?_, by simp [State.voted, h.length_eq]⟩
  rw [sib_voted] at hsr
  cases k with
  | ospf6 i =>
      obtain ⟨old, hold, rfl⟩ := Option.map_eq_some_iff.mp hsr
      exact (h.sib_ok _ old hold).pop
  | bgp i => exact h.sib_ok _ sr hsr

/-- The configuration never changes. -/
theorem Stepped.conf {c c' : State} {e : Event} (h : Stepped c e c') :
    c'.numSibsConf = c.numSibsConf ∧ c'.voterTypeConf = c.voterTypeConf := by
  cases h with
  | handled hsr hstate hhandled => cases hhandled <;> simp [State.addRouting]
  | _ => simp [State.addRouting]

theorem ok_sibRouterInit (routers : List Router) (rib : List RibRoute) (numSibs : Int)
    (voterType : VoterType) : (State.sibRouterInit routers rib numSibs voterType).Ok :=
  ⟨fun k sr h => by cases k <;> simp [State.sibRouterInit] at h, rfl⟩

theorem State.Ok.run {c c' : State} (h : c.Ok) {es : List Event}
    (hrun : (machine.run c es).result = some c') : c'.Ok :=
  machine.run_invariant h
    (fun _ _ _ hs hstep => step_invariant (fun _ => hs.stepped) (fun _ => State.Ok.voted) hstep) hrun

section Reached

variable {numSibs : Int} {voterType : VoterType} {c : State}

theorem Reached.ok (h : Reached numSibs voterType c) : c.Ok := by
  obtain ⟨routers, rib, es, hrun⟩ := h
  exact (ok_sibRouterInit routers rib numSibs voterType).run hrun

theorem Reached.conf (h : Reached numSibs voterType c) :
    c.numSibsConf = numSibs ∧ c.voterTypeConf = voterType := by
  obtain ⟨routers, rib, es, hrun⟩ := h
  let P := fun c : State => c.numSibsConf = numSibs ∧ c.voterTypeConf = voterType
  refine machine.run_invariant (P := P) ⟨rfl, rfl⟩ (fun s e s' hs hstep => ?_) hrun
  refine step_invariant (P := P) (fun c' hc' => ?_) (fun _ hc' => hc') hstep
  exact ⟨hc'.conf.1.trans hs.1, hc'.conf.2.trans hs.2⟩

end Reached

end Harry.Controller
