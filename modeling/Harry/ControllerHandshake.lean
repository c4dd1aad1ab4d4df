import Harry.ControllerCounter

/-! A handshake while the other siblings go on voting. The handshake counts its own requests, and a won
vote counts on for every sibling in whatever state it is. -/

open Harry.Base Harry.Rfp

namespace Harry.Controller

/-- The event is one of the sibling at `k`. -/
def Event.concerns (k : SibRef) : Event → Bool
  | .start k' => decide (k' = k)
  | .recv k' _ _ => decide (k' = k)
  | .destroy k' => decide (k' = k)
  | _ => false

/-- The votes won in a run. -/
def votesWon (os : List Output) : Nat := os.count .achievedMajority

/-- The sibling at `k` is in state `s` with the sequence number `x`. -/
def SlotAt (c : State) (k : SibRef) (s : SibRouterState) (x : UInt32) : Prop :=
  ∃ sr, c.sib k = some sr ∧ sr.state = s ∧ sr.currentEgressXid = x

theorem votesWon_append (os os' : List Output) : votesWon (os ++ os') = votesWon os + votesWon os' :=
  List.count_append

theorem votesWon_of_unvoted {os : List Output} (h : ∀ o ∈ os, o.Unvoted) : votesWon os = 0 :=
  List.count_eq_zero.mpr fun hmem => h _ hmem

theorem votesWon_of_winner {env : Env} {c : State} {a : Rfpbuf} (h : winner c = some a) :
    votesWon (voteMajority env c).outs = 1 := by
  obtain ⟨os, houts, hos⟩ := outs_voteMajority_of_winner env h
  have hrest : .achievedMajority ∉
      (sendEach env (fun i => .routerForward .voteMajority i a) 0 c.routers.length).outs ++ os := by
    intro hmem
    rcases List.mem_append.mp hmem with hmem | hmem
    · obtain ⟨i, -, hi⟩ := List.mem_map.mp ((outs_sendEach_inOrder 0 _).subset hmem)
      cases hi
    · obtain ⟨xid, hx⟩ := hos _ hmem
      cases hx
  rw [houts, votesWon, List.count_cons_self, List.count_eq_zero.mpr hrest]

/-- No slot goes away. -/
theorem Stepped.exists_sib {c c' : State} {e : Event} (h : Stepped c e c') {i : Nat} {sr : SibRouter}
    (hsr : c.sib (.ospf6 i) = some sr) : ∃ sr', c'.sib (.ospf6 i) = some sr' := by
  have hle : c.ospf6Siblings.length ≤ c'.ospf6Siblings.length := by
    cases h with
    | handled _ _ hhandled => cases hhandled <;> simp [State.addRouting]
    | _ => simp [State.addRouting]
  obtain ⟨hi, -⟩ := List.getElem?_eq_some_iff.mp hsr
  exact ⟨_, List.getElem?_eq_getElem (Nat.lt_of_lt_of_le hi hle)⟩

/-- An event of another sibling leaves the sibling at `i` where it is; its number counts the votes. -/
theorem SlotAt.other_step {c c' : State} {e : Event} {i : Nat} {s : SibRouterState} {x : UInt32}
    (h : SlotAt c (.ospf6 i) s x) (hs : s ≠ .disconnected) (he : e.concerns (.ospf6 i) = false)
    (hstep : (machine.step c e).result = some c') :
    SlotAt c' (.ospf6 i) s (x + UInt32.ofNat (votesWon (machine.step c e).outs)) := by
  obtain ⟨sr, hsr, rfl, rfl⟩ := h
  have hquiet : ∀ c1, Stepped c e c1 → SlotAt c1 (.ospf6 i) sr.state sr.currentEgressXid := by
    intro c1 hc1
    obtain ⟨new, hnew⟩ := hc1.exists_sib hsr
    refine ⟨new, hnew, ?_⟩
    cases hc1.slot hnew with
    | same hsr' =>
        rw [hsr] at hsr'
        cases hsr'
        exact ⟨rfl, rfl⟩
    | opened raw hnone =>
        rw [hsr] at hnone
        cases hnone
    | reused hsr' hstate =>
        rw [hsr] at hsr'
        cases hsr'
        exact absurd hstate hs
    | ingressSent hsr' =>
        rw [hsr] at hsr'
        cases hsr'
        unfold SibRouter.ingressSent
        split_ifs <;> exact ⟨rfl, rfl⟩
    | _ => simp [Event.concerns] at he
  rcases step_cases hstep with ⟨hc', hun⟩ | ⟨c1, env, a, hvote, hwin, hc1, rfl⟩
  · rw [votesWon_of_unvoted hun]
    simpa using hquiet c' hc'
  · rw [step_of_voteOf hvote, votesWon_of_winner hwin]
    obtain ⟨sr1, hsr1, hstate1, hxid1⟩ := hquiet c1 hc1
    exact ⟨bumpEgressXid (popHead sr1), by rw [sib_voted, hsr1]; rfl, hstate1, congrArg (· + 1) hxid1⟩

theorem SlotAt.other_run {c c' : State} {es : List Event} {i : Nat} {s : SibRouterState} {x : UInt32}
    (h : SlotAt c (.ospf6 i) s x) (hs : s ≠ .disconnected)
    (hes : ∀ e ∈ es, e.concerns (.ospf6 i) = false) (hrun : (machine.run c es).result = some c') :
    SlotAt c' (.ospf6 i) s (x + UInt32.ofNat (votesWon (machine.run c es).outs)) := by
  induction es generalizing c x with
  | nil =>
      cases hrun
      simpa [votesWon] using h
  | cons e es ih =>
      rw [machine.run_cons, Exec.result_bind_eq_some] at hrun
      obtain ⟨c1, hc1, hrest⟩ := hrun
      have := ih (h.other_step hs (hes e List.mem_cons_self) hc1)
        (fun e' he' => hes e' (List.mem_cons_of_mem _ he')) hrest
      rw [machine.run_cons, Exec.bind_of_some _ hc1, votesWon_append, UInt32.ofNat_add, ← UInt32.add_assoc]
      exact this

/-- What a handshake request makes of a state and a sequence number. -/
def requestStep (type : RfpType) (xid : UInt32) (s : SibRouterState) (x : UInt32) : SibRouterState × UInt32 :=
  if xid = x then
    match requestNext (some type) s with
    | some new => (new, x + 1)
    | none => if type = .ifAddressReq then (s, x + 1) else (s, x)
  else (s, x)

/-- The message types of the handshake. -/
def isRequest (type : RfpType) : Bool :=
  decide (type = .featuresRequest) || decide (type = .redistributeRequest) || decide (type = .ifAddressReq)

theorem slotAt_setSib {c : State} {k : SibRef} {old : SibRouter} (h : c.sib k = some old) (sr : SibRouter) :
    SlotAt (c.setSib k sr) k sr.state sr.currentEgressXid :=
  ⟨sr, by rw [State.sib_setSib h, if_pos rfl], rfl, rfl⟩

theorem slotAt_of_handshakeRequest {c c' : State} {k : SibRef} {sr : SibRouter} {xid : UInt32}
    {expects : SibRouterState → Bool} {reply : Exec Output Unit} {type : RfpType}
    (hsr : c.sib k = some sr)
    (hexpects : expects sr.state = ((requestNext (some type) sr.state).isSome || decide (type = .ifAddressReq)))
    (h : (handshakeRequest k xid expects reply (requestNext (some type)) sr c).result = some c') :
    SlotAt c' k (requestStep type xid sr.state sr.currentEgressXid).1
      (requestStep type xid sr.state sr.currentEgressXid).2 := by
  unfold handshakeRequest at h
  unfold requestStep
  by_cases hxid : xid = sr.currentEgressXid
  · cases hnext : requestNext (some type) sr.state with
    | some new =>
        simp only [hxid, hexpects, hnext, Option.isSome_some, Bool.true_or, and_self, if_true] at h ⊢
        obtain ⟨_, -, h⟩ := Exec.result_bind_eq_some.mp h
        obtain ⟨p, htrans, h⟩ := Exec.result_bind_eq_some.mp h
        cases result_stateTransition htrans
        cases h
        exact slotAt_setSib (by rw [State.sib_addRouting]; exact hsr) ((bumpEgressXid sr).moved new)
    | none =>
        by_cases htype : type = .ifAddressReq
        · subst htype
          simp only [hxid, hexpects, hnext, decide_true, Bool.or_true, and_self, if_true] at h ⊢
          obtain ⟨_, -, h⟩ := Exec.result_bind_eq_some.mp h
          cases h
          exact slotAt_setSib hsr (bumpEgressXid sr)
        · simp only [hxid, hexpects, hnext, htype, Option.isSome_none, decide_false, Bool.or_self,
            Bool.false_eq_true, and_false, if_false, if_true] at h ⊢
          cases h
          exact ⟨sr, hsr, rfl, rfl⟩
  · rw [if_neg (fun hcond => hxid hcond.1)] at h
    rw [if_neg hxid]
    cases h
    exact ⟨sr, hsr, rfl, rfl⟩

section Request

variable {c c' : State} {k : SibRef} {s : SibRouterState} {x : UInt32} {m : Rfpbuf} {env : Env}

/-- The step of a request of the handshake. -/
theorem SlotAt.request_step (h : SlotAt c k s x) (hs : s ≠ .disconnected) {type : RfpType}
    (hm : m.type = some type) (htype : isRequest type = true)
    (hstep : (machine.step c (.recv k m env)).result = some c') :
    SlotAt c' k (requestStep type m.xid s x).1 (requestStep type m.xid s x).2 := by
  obtain ⟨sr, hsr, rfl, rfl⟩ := h
  simp only [machine, step, hsr, hs, if_false, sibRouterProcessPacket, Exec.deref_some_bind, hm] at hstep
  simp only [isRequest, Bool.or_eq_true, decide_eq_true_eq] at htype
  rcases htype with (rfl | rfl) | rfl
  · exact slotAt_of_handshakeRequest hsr (by cases sr.state <;> rfl) hstep
  · exact slotAt_of_handshakeRequest hsr (by cases sr.state <;> rfl) hstep
  · exact slotAt_of_handshakeRequest hsr (by cases sr.state <;> rfl) hstep

/-- No request leads to a vote. -/
theorem votesWon_request {type : RfpType} (hm : m.type = some type) (htype : isRequest type = true) :
    votesWon (machine.step c (.recv k m env)).outs = 0 := by
  have hnone : voteOf c (.recv k m env) = none := by
    simp only [isRequest, Bool.or_eq_true, decide_eq_true_eq] at htype
    rcases htype with (rfl | rfl) | rfl <;> simp [voteOf, voteEntry, egressSib, hm]
  exact votesWon_of_unvoted fun o ho => unvoted_of_voteOf_eq_none hnone ho

theorem SlotAt.start_step (h : SlotAt c k .connecting x)
    (hstep : (machine.step c (.start k)).result = some c') : SlotAt c' k .connected x := by
  obtain ⟨sr, hsr, hstate, rfl⟩ := h
  simp only [machine, step, hsr, hstate, if_true] at hstep
  obtain ⟨p, htrans, hstep⟩ := Exec.result_bind_eq_some.mp hstep
  cases result_stateTransition htrans
  cases hstep
  exact slotAt_setSib (by rw [State.sib_addRouting]; exact hsr) (sr.moved .connected)

theorem votesWon_start : votesWon (machine.step c (.start k)).outs = 0 :=
  votesWon_of_unvoted fun _ ho => unvoted_of_voteOf_eq_none (c := c) (e := .start k) rfl ho

end Request

/-- The features reply is one buffer for all routers; a request is undefined where that buffer is
gone too early, and nowhere else. -/
theorem features_undefined_iff {c : State} (hok : c.Ok) {k : SibRef} {x : UInt32} {env : Env}
    (h : SlotAt c k .connected x) :
    (machine.step c (.recv k (.routeflowAllocXid .featuresRequest 0 []) env)).result = none ↔
      x = 0 ∧ ¬ env.Survives c.routers.length := by
  obtain ⟨sr, hsr, hstate, rfl⟩ := h
  have hreply : (sibRouterSendFeaturesReply env k 0 c).result = some () ↔ env.Survives c.routers.length := by
    rw [sibRouterSendFeaturesReply, result_sendEach]
    exact ⟨fun h j hj => h j (Nat.zero_le j) (by omega), fun h j _ hj => h j (by omega)⟩
  simp only [machine, step, hsr, hstate, if_false, sibRouterProcessPacket, Exec.deref_some_bind,
    Rfpbuf.type_routeflowAllocXid, Rfpbuf.xid_routeflowAllocXid, handshakeRequest, featuresExpects, featuresNext,
    reduceCtorEq, decide_true, Bool.true_or, and_true]
  by_cases hx : 0 = sr.currentEgressXid
  · rw [if_pos hx, Exec.result_bind]
    cases hr : (sibRouterSendFeaturesReply env k 0 c).result with
    | none =>
        have : ¬ env.Survives c.routers.length := fun hs => by
          rw [hreply.mpr hs] at hr
          cases hr
        simp [hx.symm, this]
    | some u =>
        have hs : env.Survives c.routers.length := hreply.mp hr
        simp only [Option.bind_some, Exec.result_bind, Exec.result_pure, reduceCtorEq, false_iff, not_and, not_not,
          result_stateTransition_of_le (Nat.le_of_eq hok.length_eq.symm)]
        exact fun _ => hs
  · rw [if_neg hx]
    simp [Ne.symm hx]

/-- The handshake of the sibling at slot `i` up to each of its three requests, with what the other
siblings do in between. -/
def beforeFeatures (i : Nat) (s1 s2 : List Event) : List Event := s1 ++ .start (.ospf6 i) :: s2

def beforeRedistribute (i : Nat) (env : Env) (s1 s2 s3 : List Event) : List Event :=
  beforeFeatures i s1 s2 ++ .recv (.ospf6 i) (.routeflowAllocXid .featuresRequest 0 []) env :: s3

def beforeIfAddress (i : Nat) (env env' : Env) (s1 s2 s3 s4 : List Event) : List Event :=
  beforeRedistribute i env s1 s2 s3 ++
    .recv (.ospf6 i) (.routeflowAllocXid .redistributeRequest 1 []) env' :: s4

section Segments

variable {c c' : State} {i : Nat} {s : SibRouterState} {x : UInt32} {e : Event} {pre post : List Event}

/-- One event of the sibling, after which it is in state `s`, and then a stretch of the others. -/
theorem SlotAt.segment {e : Event} (hpost : ∀ e ∈ post, e.concerns (.ospf6 i) = false) (hs : s ≠ .disconnected)
    (hvotes : ∀ c, votesWon (machine.step c e).outs = 0)
    (hown : ∀ c1 c2, (machine.run c pre).result = some c1 → (machine.step c1 e).result = some c2 →
      SlotAt c2 (.ospf6 i) s (x + UInt32.ofNat (votesWon (machine.run c pre).outs)))
    (hrun : (machine.run c (pre ++ e :: post)).result = some c') :
    SlotAt c' (.ospf6 i) s (x + UInt32.ofNat (votesWon (machine.run c (pre ++ e :: post)).outs)) := by
  rw [machine.run_append, Exec.result_bind_eq_some] at hrun
  obtain ⟨c1, hc1, hrun⟩ := hrun
  rw [machine.run_cons, Exec.result_bind_eq_some] at hrun
  obtain ⟨c2, hc2, hrun⟩ := hrun
  have := (hown c1 c2 hc1 hc2).other_run hs hpost hrun
  rw [machine.run_append, Exec.bind_of_some _ hc1, machine.run_cons, Exec.bind_of_some _ hc2, votesWon_append,
    votesWon_append, hvotes, Nat.zero_add, UInt32.ofNat_add, ← UInt32.add_assoc]
  exact this

/-- A request of the sibling and a stretch of the others. -/
theorem SlotAt.request_segment {type : RfpType} {m : Rfpbuf} {env : Env} (s' : SibRouterState) (x' : UInt32)
    (hpre : ∀ c1, (machine.run c pre).result = some c1 →
      SlotAt c1 (.ospf6 i) s (x + UInt32.ofNat (votesWon (machine.run c pre).outs)))
    (hs : s ≠ .disconnected) (hs' : s' ≠ .disconnected) (hm : m.type = some type)
    (htype : isRequest type = true) (hpost : ∀ e ∈ post, e.concerns (.ospf6 i) = false)
    (hstep : requestStep type m.xid s (x + UInt32.ofNat (votesWon (machine.run c pre).outs)) =
      (s', x' + UInt32.ofNat (votesWon (machine.run c pre).outs)))
    (hrun : (machine.run c (pre ++ .recv (.ospf6 i) m env :: post)).result = some c') :
    SlotAt c' (.ospf6 i) s'
      (x' + UInt32.ofNat (votesWon (machine.run c (pre ++ .recv (.ospf6 i) m env :: post)).outs)) := by
  refine SlotAt.segment hpost hs' (fun _ => votesWon_request hm htype) (fun c1 c2 hc1 hc2 => ?_) hrun
  have := (hpre c1 hc1).request_step hs hm htype hc2
  rwa [hstep] at this

end Segments

section Handshake

variable {c c' : State} {i : Nat} {env env' env'' : Env} {s1 s2 s3 s4 : List Event}

theorem slotAt_beforeFeatures (hc : SlotAt c (.ospf6 i) .connecting 0)
    (h1 : ∀ e ∈ s1, e.concerns (.ospf6 i) = false) (h2 : ∀ e ∈ s2, e.concerns (.ospf6 i) = false)
    (hrun : (machine.run c (beforeFeatures i s1 s2)).result = some c') :
    SlotAt c' (.ospf6 i) .connected
      (0 + UInt32.ofNat (votesWon (machine.run c (beforeFeatures i s1 s2)).outs)) :=
  SlotAt.segment h2 nofun (fun _ => votesWon_start)
    (fun _ _ hc1 hc2 => (hc.other_run nofun h1 hc1).start_step hc2) hrun

theorem ofNat_eq_zero_iff {n : Nat} : UInt32.ofNat n = 0 ↔ n % 2 ^ 32 = 0 := by
  rw [← UInt32.toNat_inj, UInt32.toNat_ofNat']
  rfl

/-- The state in which the third request finds the sibling, and its number but for the votes. -/
theorem slotAt_beforeIfAddress (hc : SlotAt c (.ospf6 i) .connecting 0)
    (h1 : ∀ e ∈ s1, e.concerns (.ospf6 i) = false) (h2 : ∀ e ∈ s2, e.concerns (.ospf6 i) = false)
    (h3 : ∀ e ∈ s3, e.concerns (.ospf6 i) = false) (h4 : ∀ e ∈ s4, e.concerns (.ospf6 i) = false)
    (hrun : (machine.run c (beforeIfAddress i env env' s1 s2 s3 s4)).result = some c') :
    ∃ s x, SlotAt c' (.ospf6 i) s
        (x + UInt32.ofNat (votesWon (machine.run c (beforeIfAddress i env env' s1 s2 s3 s4)).outs)) ∧
      s ≠ .disconnected ∧ s ≠ .routing ∧
      (s = .featuresRedisReqRcvd ↔
        UInt32.ofNat (votesWon (machine.run c (beforeFeatures i s1 s2)).outs) = 0 ∧
        UInt32.ofNat (votesWon (machine.run c (beforeRedistribute i env s1 s2 s3)).outs) = 0) ∧
      (s = .featuresRedisReqRcvd → x = 2) := by
  have hfeat : ∀ c1, (machine.run c (beforeFeatures i s1 s2)).result = some c1 → _ :=
    fun c1 hc1 => slotAt_beforeFeatures hc h1 h2 hc1
  by_cases hv1 : UInt32.ofNat (votesWon (machine.run c (beforeFeatures i s1 s2)).outs) = 0
  · -- the features request is accepted
    have hredist : ∀ c1, (machine.run c (beforeRedistribute i env s1 s2 s3)).result = some c1 → _ :=
      fun c1 hc1 => SlotAt.request_segment .featuresReqRcvd 1 hfeat nofun nofun
        (Rfpbuf.type_routeflowAllocXid _ _ _) rfl h3 (by rw [hv1]; rfl) hc1
    by_cases hv2 : UInt32.ofNat (votesWon (machine.run c (beforeRedistribute i env s1 s2 s3)).outs) = 0
    · exact ⟨.featuresRedisReqRcvd, 2, SlotAt.request_segment _ _ hredist nofun nofun
        (Rfpbuf.type_routeflowAllocXid _ _ _) rfl h4 (by rw [hv2]; rfl) hrun, nofun, nofun,
        ⟨fun _ => ⟨hv1, hv2⟩, fun _ => rfl⟩, fun _ => rfl⟩
    · refine ⟨.featuresReqRcvd, 1, SlotAt.request_segment _ _ hredist nofun nofun
        (Rfpbuf.type_routeflowAllocXid _ _ _) rfl h4 (if_neg fun h => hv2 ?_) hrun, nofun, nofun,
        ⟨nofun, fun h => absurd h.2 hv2⟩, nofun⟩
      rw [Rfpbuf.xid_routeflowAllocXid] at h
      simpa using h
  · -- it is not, and the redistribute request can only lead off the path
    have hredist : ∀ c1, (machine.run c (beforeRedistribute i env s1 s2 s3)).result = some c1 → _ :=
      fun c1 hc1 => SlotAt.request_segment .connected 0 hfeat nofun nofun
        (Rfpbuf.type_routeflowAllocXid _ _ _) rfl h3 (if_neg fun h => hv1 (by simpa using h.symm)) hc1
    by_cases hv2 : 1 = 0 + UInt32.ofNat (votesWon (machine.run c (beforeRedistribute i env s1 s2 s3)).outs)
    · refine ⟨.redistributeReqRcvd, 1, SlotAt.request_segment _ _ hredist nofun nofun
        (Rfpbuf.type_routeflowAllocXid _ _ _) rfl h4 ((if_pos hv2).trans ?_) hrun, nofun, nofun,
        ⟨nofun, fun h => absurd h.1 hv1⟩, nofun⟩
      rw [UInt32.zero_add, UInt32.add_comm]
      rfl
    · exact ⟨.connected, 0, SlotAt.request_segment _ _ hredist nofun nofun
        (Rfpbuf.type_routeflowAllocXid _ _ _) rfl h4 (if_neg hv2) hrun, nofun, nofun,
        ⟨nofun, fun h => absurd h.1 hv1⟩, nofun⟩

/-- The third request takes the sibling to `SIB_ROUTING` only after the other two. -/
theorem routing_iff_of_ifAddress {s : SibRouterState} {x v : UInt32} (hs : s ≠ .routing)
    (hx : s = .featuresRedisReqRcvd → x = 2) :
    (requestStep .ifAddressReq 2 s (x + v)).1 = .routing ↔ s = .featuresRedisReqRcvd ∧ v = 0 := by
  unfold requestStep
  by_cases hredis : s = .featuresRedisReqRcvd
  · rw [hx hredis, hredis]
    have hv : (2 : UInt32) = 2 + v ↔ v = 0 := by simp
    by_cases h0 : v = 0
    · simp [h0, requestNext, ifAddressNext]
    · simp [h0, hv]
  · by_cases hmatch : 2 = x + v
    · rw [if_pos hmatch]
      cases s <;> simp_all [requestNext, ifAddressNext]
    · simp [hmatch, hs, hredis]

end Handshake

end Harry.Controller
