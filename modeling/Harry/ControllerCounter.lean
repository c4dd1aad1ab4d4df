import Harry.ControllerQuorum

/-! The counter of routing siblings and the voter that divides by it. `state_transition` keeps
`n_ospf6_siblings_routing` for the siblings of both tables, so it counts the OSPF6 siblings in
`SIB_ROUTING` for as long as no BGP sibling gets there. `VOTER_ANY` takes the counter, less the
siblings that wait for a first message, as the number of voters; the votes themselves are taken from
every queue. -/

open Harry.Base Harry.Rfp

namespace Harry.Controller

/-- The siblings of both tables that are in `SIB_ROUTING`. -/
def routingCount (c : State) : Int := c.ospf6Siblings.countP isRouting + c.bgpSiblings.countP isRouting

/-- The counter is right for both tables together. -/
def Counted (c : State) : Prop := c.nOspf6SiblingsRouting = routingCount c

theorem routingCount_setSib {c : State} {k : SibRef} {old : SibRouter} (h : c.sib k = some old)
    (sr : SibRouter) :
    routingCount (c.setSib k sr) = routingCount c + (isRouting sr).toNat - (isRouting old).toNat := by
  cases k with
  | ospf6 i =>
      have := countP_set_add (p := isRouting) h sr
      simp only [routingCount, State.setSib]
      omega
  | bgp i =>
      have := countP_set_add (p := isRouting) h sr
      simp only [routingCount, State.setSib]
      omega

section Counted

variable {c : State} {k : SibRef} {old sr : SibRouter}

theorem Counted.setSib_addRouting (h : Counted c) (hold : c.sib k = some old) {d : Int}
    (hd : d = (isRouting sr).toNat - (isRouting old).toNat) : Counted ((c.setSib k sr).addRouting d) := by
  show (c.setSib k sr).nOspf6SiblingsRouting + d = routingCount (c.setSib k sr)
  rw [routingCount_setSib hold, State.setSib_nOspf6SiblingsRouting, h, hd]
  omega

theorem Counted.setSib (h : Counted c) (hold : c.sib k = some old) (hstate : isRouting sr = isRouting old) :
    Counted (c.setSib k sr) := by
  have : Counted ((c.setSib k sr).addRouting 0) := h.setSib_addRouting hold (by rw [hstate]; omega)
  rwa [addRouting_zero] at this

theorem Counted.voted (h : Counted c) : Counted c.voted := by
  simp only [Counted, routingCount, State.voted, List.countP_map]
  exact h

end Counted

/-- The counter follows a request that is accepted. -/
theorem routingDelta_requestNext {type : Option RfpType} {s new : SibRouterState}
    (h : requestNext type s = some new) :
    routingDelta s new = (decide (new = .routing)).toNat - (decide (s = .routing)).toNat := by
  unfold requestNext at h
  cases s <;> split at h <;> simp [featuresNext, ifAddressNext, redistributeNext] at h <;> subst h <;> rfl

theorem routingDelta_disconnected (s : SibRouterState) :
    routingDelta s .disconnected = 0 - (decide (s = .routing)).toNat := by
  cases s <;> rfl

theorem isRouting_of_egressSib {c : State} {msg : Rfpbuf} {sr sr' : SibRouter}
    (h : egressSib c msg sr = some sr') : isRouting sr' = isRouting sr := by
  rw [isRouting, egressSib_state h, isRouting]

theorem isRouting_append {c : State} {msg : Rfpbuf} {sr sr' : SibRouter}
    (h : egressSib c msg sr = some sr') : isRouting (appendMsgToRcvdQueue sr' msg) = isRouting sr := by
  rw [← isRouting_of_egressSib h]
  rfl

theorem isRouting_ingressSent (xid : UInt32) (sr : SibRouter) :
    isRouting (sr.ingressSent xid) = isRouting sr := by
  unfold SibRouter.ingressSent
  split_ifs <;> rfl

/-- The counter counts the routing siblings of both tables, whatever happens. -/
theorem Counted.stepped {c c' : State} {e : Event} (hc : Counted c) (h : Stepped c e c') : Counted c' := by
  cases h with
  | ignored => exact hc
  | reused hsr hstate => exact hc.setSib (k := .ospf6 _) hsr (by simp [isRouting, SibRouter.reused, hstate])
  | openedOspf6 hlt hconn =>
      show c.nOspf6SiblingsRouting = ((c.ospf6Siblings ++ [_]).countP isRouting : Int) + _
      rw [List.countP_append, hc]
      simp [routingCount, isRouting, SibRouter.reused]
  | openedBgp =>
      show c.nOspf6SiblingsRouting = _ + ((c.bgpSiblings ++ [_]).countP isRouting : Int)
      rw [List.countP_append, hc]
      simp [routingCount, isRouting, SibRouter.reused]
  | started hsr hstate => exact hc.setSib hsr (by simp [isRouting, hstate])
  | @handled _ _ _ sr _ hsr hstate hhandled =>
      cases hhandled with
      | ignored => exact hc
      | moved hxid hnext =>
          rw [State.setSib_addRouting]
          exact hc.setSib_addRouting hsr (routingDelta_requestNext hnext)
      | bumped htype hxid hnext => exact hc.setSib hsr rfl
      | queued hsib hxid => exact hc.setSib hsr (isRouting_append hsib)
      | rejected hsib hxid => exact hc.setSib hsr (isRouting_of_egressSib hsib)
      | acked => exact hc.setSib hsr rfl
      | leader htype b =>
          have : isRouting { sr with isLeader := b } = isRouting sr := rfl
          exact hc.setSib hsr this
  | destroyed hsr hstate =>
      rw [State.setSib_addRouting]
      exact hc.setSib_addRouting hsr (routingDelta_disconnected _)
  | ingress =>
      simp only [Counted, routingCount, List.countP_map, Function.comp_def, isRouting_ingressSent]
      exact hc
  | routerSide => exact hc

/-- The event is a request that takes a BGP sibling to `SIB_ROUTING`. -/
def bgpEntersRouting (c : State) : Event → Bool
  | .recv (.bgp i) msg _ => (c.bgpSiblings[i]?).any fun sr =>
      decide (msg.xid = sr.currentEgressXid ∧ requestNext msg.type sr.state = some .routing)
  | _ => false

/-- The sibling is in `SIB_ROUTING` and past its first egress message. -/
def isEstablished (sr : SibRouter) : Bool := isRouting sr && !sr.waitingOnFirstEgressMsg

/-- The counter counts the routing OSPF6 siblings, only routing siblings wait for a first message,
and what `VOTER_ANY` divides by is the number of routing siblings that have sent one. -/
structure RoutingCounted (c : State) : Prop where
  counter_eq : c.nOspf6SiblingsRouting = c.ospf6Siblings.countP isRouting
  routing_of_waiting : ∀ k sr, c.sib k = some sr → sr.waitingOnFirstEgressMsg = true → sr.state = .routing
  numHosts_any : numHosts { c with voterTypeConf := .any } = c.ospf6Siblings.countP isEstablished
  numHosts_nonneg : 0 ≤ numHosts { c with voterTypeConf := .any }

theorem countP_isRouting (l : List SibRouter)
    (h : ∀ sr ∈ l, sr.waitingOnFirstEgressMsg = true → sr.state = .routing) :
    l.countP isRouting = l.countP isEstablished + l.countP (·.waitingOnFirstEgressMsg) := by
  induction l with
  | nil => rfl
  | cons sr l ih =>
      have hl := ih fun x hx => h x (List.mem_cons_of_mem _ hx)
      have hsr := h sr List.mem_cons_self
      simp only [List.countP_cons, hl, isEstablished, isRouting]
      by_cases hw : sr.waitingOnFirstEgressMsg = true
      · simp [hw, hsr hw]
        omega
      · simp [hw]
        omega

/-- No BGP sibling gets to `SIB_ROUTING` by another event. -/
theorem bgp_not_routing {c c' : State} {e : Event} (h : Stepped c e c') (he : bgpEntersRouting c e = false)
    (hc : ∀ i sr, c.sib (.bgp i) = some sr → isRouting sr = false) (i : Nat) (sr : SibRouter)
    (hnew : c'.sib (.bgp i) = some sr) : isRouting sr = false := by
  have hold : ∀ sr {sr'}, c.sib (.bgp i) = some sr → isRouting sr' = isRouting sr → isRouting sr' = false :=
    fun sr _ hsr heq => heq.trans (hc i sr hsr)
  cases h.slot hnew with
  | same hsr => exact hold _ hsr rfl
  | opened raw hsr => rfl
  | reused hsr hstate => rfl
  | started hsr hstate => rfl
  | destroyed hsr => rfl
  | ingressSent hsr => exact hold _ hsr (isRouting_ingressSent _ _)
  | moved hsr hxid hnext =>
      refine decide_eq_false fun hrouting => ?_
      simp only [bgpEntersRouting] at he
      rw [← State.sib_bgp, hsr, Option.any_some] at he
      exact of_decide_eq_false he ⟨hxid, hrouting ▸ hnext⟩
  | bumped hsr htype hxid hnext => exact hold _ hsr rfl
  | queued hsr hstate hsib hxid => exact hold _ hsr (isRouting_append hsib)
  | rejected hsr hsib hxid => exact hold _ hsr (isRouting_of_egressSib hsib)
  | acked hsr => exact hold _ hsr rfl
  | leader hsr htype b => exact hold _ hsr rfl

theorem routingCounted_of_counted {c : State} (hok : c.Ok) (hc : Counted c)
    (hbgp : ∀ i sr, c.sib (.bgp i) = some sr → isRouting sr = false) : RoutingCounted c := by
  have hzero : c.bgpSiblings.countP isRouting = 0 := by
    refine List.countP_eq_zero.mpr fun sr hsr => ?_
    obtain ⟨i, hi⟩ := List.mem_iff_getElem?.mp hsr
    simp [hbgp i sr hi]
  have hcounter : c.nOspf6SiblingsRouting = c.ospf6Siblings.countP isRouting := by
    rw [hc, routingCount, hzero]
    simp
  have hwait : ∀ k sr, c.sib k = some sr → sr.waitingOnFirstEgressMsg = true → sr.state = .routing :=
    fun k sr hsr => (hok.sib_ok k sr hsr).routing_of_waiting
  have hhosts : numHosts { c with voterTypeConf := .any } = c.ospf6Siblings.countP isEstablished := by
    have hsplit := countP_isRouting c.ospf6Siblings fun sr hsr => by
      obtain ⟨i, hi⟩ := List.mem_iff_getElem?.mp hsr
      exact hwait (.ospf6 i) sr hi
    simp only [numHosts, numWaitingOnFirstEgressMsg, hcounter, hsplit]
    omega
  exact ⟨hcounter, hwait, hhosts, by rw [hhosts]; exact Int.natCast_nonneg _⟩

/-- What a run without routing BGP siblings keeps. -/
structure Routed (c : State) : Prop where
  ok : c.Ok
  counted : Counted c
  bgp : ∀ i sr, c.sib (.bgp i) = some sr → isRouting sr = false

theorem Routed.stepped {c c' : State} {e : Event} (h : Routed c) (he : bgpEntersRouting c e = false)
    (hstep : Stepped c e c') : Routed c' :=
  ⟨h.ok.stepped hstep, h.counted.stepped hstep, bgp_not_routing hstep he h.bgp⟩

theorem Routed.voted {c : State} (h : Routed c) : Routed c.voted :=
  ⟨h.ok.voted, h.counted.voted, h.bgp⟩

theorem routed_sibRouterInit (routers : List Router) (rib : List RibRoute) (numSibs : Int)
    (voterType : VoterType) : Routed (State.sibRouterInit routers rib numSibs voterType) :=
  ⟨ok_sibRouterInit _ _ _ _, rfl, nofun⟩

/-- In a run in which no request takes a BGP sibling to `SIB_ROUTING`, the counter is right in every
state. -/
theorem routingCounted_of_run {routers : List Router} {rib : List RibRoute} {numSibs : Int}
    {voterType : VoterType} {es : List Event} {c : State}
    (hall : machine.AllSteps (fun c e => bgpEntersRouting c e = false)
      (State.sibRouterInit routers rib numSibs voterType) es)
    (hrun : (machine.run (State.sibRouterInit routers rib numSibs voterType) es).result = some c) :
    RoutingCounted c := by
  have h : Routed c := machine.run_invariant_of_allSteps (routed_sibRouterInit routers rib numSibs voterType)
    hall (fun s e s' hs he hstep => step_invariant (fun _ => hs.stepped he) (fun _ => Routed.voted) hstep) hrun
  exact routingCounted_of_counted h.ok h.counted h.bgp

/-- Three OSPF6 siblings and a BGP sibling with the handshake its `bgp_ctrl_client` makes. -/
theorem routingCounted_of_three_and_bgp : ∃ c, (machine.run (State.sibRouterInit [⟨[]⟩] [] 3 .any)
      (connectAll 3 ++ [.acceptBgp zeroedSib, .start (.bgp 0),
        .recv (.bgp 0) (.routeflowAllocXid .featuresRequest 0 []) promptEnv,
        .recv (.bgp 0) (.routeflowAllocXid .redistributeRequest 1 []) promptEnv])).result = some c ∧
    c.nOspf6SiblingsRouting = 3 ∧ RoutingCounted c := by
  obtain ⟨c, hc, hthree⟩ := exists_of_any (p := fun c : State => c.nOspf6SiblingsRouting = 3)
    (o := (machine.run (State.sibRouterInit [⟨[]⟩] [] 3 .any)
      (connectAll 3 ++ [.acceptBgp zeroedSib, .start (.bgp 0),
        .recv (.bgp 0) (.routeflowAllocXid .featuresRequest 0 []) promptEnv,
        .recv (.bgp 0) (.routeflowAllocXid .redistributeRequest 1 []) promptEnv])).result) (by decide)
  exact ⟨c, hc, hthree, routingCounted_of_run (by decide) hc⟩

/-- A BGP sibling that asks for the addresses of the interfaces as well is counted. -/
theorem bgp_counted : ∃ c, (machine.run (State.sibRouterInit [⟨[]⟩] [] 3 .any)
      (.acceptBgp zeroedSib :: .start (.bgp 0) ::
        handshakeRequests.map (.recv (.bgp 0) · promptEnv))).result = some c ∧
    c.nOspf6SiblingsRouting ≠ c.ospf6Siblings.countP isRouting :=
  exists_of_any (by decide)

/-! ### `VOTER_ANY` -/

/-- If the event queues a message of an OSPF6 sibling, that sibling is in `SIB_ROUTING` and has
stopped waiting, this message included. -/
def queuesEstablished (c : State) : Event → Bool
  | .recv (.ospf6 i) msg _ => (c.ospf6Siblings[i]?).all fun sr => (egressSib c msg sr).all fun sr' =>
      decide (sr.state = .disconnected) || decide (msg.xid < sr'.currentEgressXid) || isEstablished sr'
  | _ => true

/-- What `VOTER_ANY` is meant to ensure of a vote for `m`: there is somebody to vote, and `m` has the
votes of more than half of the established siblings. -/
structure VotedByEstablished (c : State) (m : Rfpbuf) : Prop where
  numHosts_pos : 0 < numHosts c
  majority : c.ospf6Siblings.countP isEstablished <
    2 * c.ospf6Siblings.countP fun sr => isEstablished sr && votesFor m sr

/-- Only established siblings have messages queued. -/
def QueuesEstablished (c : State) : Prop :=
  ∀ i sr, c.sib (.ospf6 i) = some sr → sr.msgsRcvdQueue ≠ [] → isEstablished sr = true

theorem isEstablished_ingressSent (xid : UInt32) (sr : SibRouter) :
    isEstablished (sr.ingressSent xid) = isEstablished sr := by
  unfold SibRouter.ingressSent
  split_ifs <;> rfl

theorem QueuesEstablished.stepped {c c' : State} {e : Event} (h : QueuesEstablished c)
    (he : queuesEstablished c e = true) (hstep : Stepped c e c') : QueuesEstablished c' := by
  intro i new hnew hq
  have hold : ∀ sr, c.sib (.ospf6 i) = some sr → sr.msgsRcvdQueue ≠ [] → isEstablished new = isEstablished sr →
      isEstablished new = true := fun sr hsr hq heq => heq.trans (h i sr hsr hq)
  have hsender : ∀ {msg env sr sr'}, e = .recv (.ospf6 i) msg env → c.sib (.ospf6 i) = some sr →
      sr.state ≠ .disconnected → egressSib c msg sr = some sr' → sr'.currentEgressXid ≤ msg.xid →
      isEstablished sr' = true := by
    rintro msg env sr sr' rfl hsr hstate hsib hxid
    simp only [queuesEstablished] at he
    rw [← State.sib_ospf6, hsr, Option.all_some, hsib, Option.all_some] at he
    simpa [hstate, UInt32.not_lt.mpr hxid] using he
  cases hstep.slot hnew with
  | same hsr => exact hold _ hsr hq rfl
  | opened raw hsr => exact absurd rfl hq
  | reused hsr hstate => exact absurd rfl hq
  | started hsr hstate =>
      have := h i _ hsr hq
      simp [isEstablished, isRouting, hstate] at this
  | destroyed hsr => exact absurd rfl hq
  | ingressSent hsr =>
      refine hold _ hsr ?_ (isEstablished_ingressSent _ _)
      unfold SibRouter.ingressSent at hq
      split_ifs at hq <;> exact hq
  | moved hsr hxid hnext =>
      have := h i _ hsr hq
      simp [isEstablished, isRouting, (requestNext_ne hnext).2.1] at this
  | bumped hsr htype hxid hnext => exact hold _ hsr hq rfl
  | queued hsr hstate hsib hxid =>
      have := hsender rfl hsr hstate hsib hxid
      exact this
  | rejected hsr hsib hxid =>
      have hsr' := h i _ hsr (egressSib_queue hsib ▸ hq)
      rcases egressSib_cases hsib with rfl | ⟨hw, -⟩
      · exact hsr'
      · simp [isEstablished, hw] at hsr'
  | acked hsr => exact hold _ hsr hq rfl
  | leader hsr htype b => exact hold _ hsr hq rfl

theorem QueuesEstablished.voted {c : State} (h : QueuesEstablished c) : QueuesEstablished c.voted := by
  intro i new hnew hq
  rw [sib_voted] at hnew
  obtain ⟨old, hold, rfl⟩ := Option.map_eq_some_iff.mp hnew
  have hne : old.msgsRcvdQueue ≠ [] := fun hnil => hq (by simp [bumpEgressXid, popHead, hnil])
  exact h i old hold hne

theorem votedByEstablished_of_winner {c : State} (hrouted : Routed c) (hq : QueuesEstablished c)
    (hany : c.voterTypeConf = .any) {m : Rfpbuf} (hwin : winner c = some m) : VotedByEstablished c m := by
  have hhosts : numHosts c = c.ospf6Siblings.countP isEstablished := by
    have := (routingCounted_of_counted hrouted.ok hrouted.counted hrouted.bgp).numHosts_any
    rwa [← hany] at this
  have hmaj := (lt_countP_of_winner hrouted.ok.queue_eq_nil hwin).1
  have hvoters : c.ospf6Siblings.countP (votesFor m) =
      c.ospf6Siblings.countP fun sr => isEstablished sr && votesFor m sr := by
    refine List.countP_congr fun sr hsr => ?_
    obtain ⟨i, hi⟩ := List.mem_iff_getElem?.mp hsr
    constructor
    · intro hv
      have hne : sr.msgsRcvdQueue ≠ [] := fun hnil => by
        have := (votesFor_iff.mp hv).2
        rw [hnil] at this
        cases this
      rw [hq i sr hi hne, hv]
      rfl
    · intro hv
      exact (Bool.and_eq_true _ _ ▸ hv).2
  rw [hhosts, hvoters] at hmaj
  refine ⟨?_, by omega⟩
  have hle : c.ospf6Siblings.countP (fun sr => isEstablished sr && votesFor m sr) ≤
      c.ospf6Siblings.countP isEstablished :=
    List.countP_mono_left fun sr _ hv => (Bool.and_eq_true _ _ ▸ hv).1
  rw [hhosts]
  omega

/-- In a run in which messages are queued from established siblings only and no request takes a BGP
sibling to `SIB_ROUTING`, `VOTER_ANY` forwards only what a majority of the established siblings
votes for. -/
theorem votedByEstablished_of_run {routers : List Router} {rib : List RibRoute} {numSibs : Int}
    {pre post : List Event} {e : Event} {c c' : State} {env : Env} {r : Nat} {m : Rfpbuf}
    (hall : machine.AllSteps (fun c e => bgpEntersRouting c e = false ∧ queuesEstablished c e = true)
      (State.sibRouterInit routers rib numSibs .any) (pre ++ e :: post))
    (hrun : (machine.run (State.sibRouterInit routers rib numSibs .any) pre).result = some c)
    (hvote : voteOf c e = some (c', env))
    (hfor : .routerForward .voteMajority r m ∈ (machine.step c e).outs) : VotedByEstablished c' m := by
  obtain ⟨hpre, hbgp, hest⟩ := Machine.AllSteps.of_append machine hall hrun
  obtain ⟨hrouted, hqueues, hany⟩ : Routed c ∧ QueuesEstablished c ∧ c.voterTypeConf = .any := by
    let P := fun c => Routed c ∧ QueuesEstablished c ∧ c.voterTypeConf = .any
    refine machine.run_invariant_of_allSteps (P := P)
      ⟨routed_sibRouterInit routers rib numSibs .any, nofun, rfl⟩ hpre (fun s e s' hs he hstep => ?_) hrun
    refine step_invariant (P := P) (fun c' hc' => ?_) (fun c' hc' => ?_) hstep
    · exact ⟨hs.1.stepped he.1 hc', hs.2.1.stepped he.2 hc', hc'.conf.2.trans hs.2.2⟩
    · exact ⟨hc'.1.voted, hc'.2.1.voted, hc'.2.2⟩
  have hstepped := stepped_of_voteOf hvote
  rw [step_of_voteOf hvote] at hfor
  exact votedByEstablished_of_winner (hrouted.stepped hbgp hstepped)
    (hqueues.stepped hest hstepped) (hstepped.conf.2.trans hany) (winner_of_routerForward hfor).2

/-- The first of three siblings to send after the handshake is the only voter. -/
theorem votedByEstablished_of_first_sender : ∃ c c' env,
    (machine.run (State.sibRouterInit [⟨[]⟩] [] 3 .any) (connectAll 3)).result = some c ∧
    voteOf c (sendOspf6 0 3 []) = some (c', env) ∧
    VotedByEstablished c' (.routeflowAllocXid .forwardOspf6 3 []) := by
  obtain ⟨c, hc, hfor, hvote⟩ := exists_of_any (p := fun c =>
      .routerForward .voteMajority 0 (.routeflowAllocXid .forwardOspf6 3 []) ∈
        (machine.step c (sendOspf6 0 3 [])).outs ∧ (voteOf c (sendOspf6 0 3 [])).isSome = true)
    (o := (machine.run (State.sibRouterInit [⟨[]⟩] [] 3 .any) (connectAll 3)).result) (by decide)
  obtain ⟨⟨c', env⟩, hvote⟩ := Option.isSome_iff_exists.mp hvote
  have hall : machine.AllSteps (fun c e => bgpEntersRouting c e = false ∧ queuesEstablished c e = true)
      (State.sibRouterInit [⟨[]⟩] [] 3 .any) (connectAll 3 ++ sendOspf6 0 3 [] :: []) := by decide
  exact ⟨c, c', env, hc, hvote, votedByEstablished_of_run hall hc hvote hfor⟩

/-- A sibling that has not begun its handshake gets a packet through although nobody has a vote. -/
theorem forwarded_without_voters : ∃ c,
    voteAfter (State.sibRouterInit [⟨[]⟩] [] 1 .any) [.acceptOspf6 zeroedSib, .start (.ospf6 0)]
      (sendOspf6 0 0 []) = some c ∧
    .routerForward .voteMajority 0 (.routeflowAllocXid .forwardOspf6 0 []) ∈ (voteMajority promptEnv c).outs ∧
    ¬ VotedByEstablished c (.routeflowAllocXid .forwardOspf6 0 []) := by
  obtain ⟨c, hc, hfor, hhosts⟩ := exists_of_any (p := fun c =>
      .routerForward .voteMajority 0 (.routeflowAllocXid .forwardOspf6 0 []) ∈ (voteMajority promptEnv c).outs ∧
        numHosts c = 0)
    (o := voteAfter (State.sibRouterInit [⟨[]⟩] [] 1 .any) [.acceptOspf6 zeroedSib, .start (.ospf6 0)]
      (sendOspf6 0 0 [])) (by decide)
  refine ⟨c, hc, hfor, fun h => ?_⟩
  have := h.numHosts_pos
  omega

end Harry.Controller
