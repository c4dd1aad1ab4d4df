import Harry.ControllerRequests

/-! The sequence numbers of the siblings that are past their first egress message. A won vote counts on
for all siblings alike, so their numbers differ only where they began: with the requests of a handshake,
or with the number of the leader. A restarted sibling has missed the votes of before, and its own number
is no longer that of the others. Which siblings have missed none is not in the state of the controller;
a history variable keeps it. -/

open Harry.Base Harry.Rfp

namespace Harry.Controller

/-- The established siblings have one sequence number. -/
def SameXid (c : State) : Prop :=
  ∀ i j sr sr', c.sib (.ospf6 i) = some sr → c.sib (.ospf6 j) = some sr' → isEstablished sr = true →
    isEstablished sr' = true → sr.currentEgressXid = sr'.currentEgressXid

/-- The sequence number a sibling goes on with after its first egress message. -/
def firstEgressXid (c : State) (sr : SibRouter) : UInt32 :=
  if sr.isLeader then sr.currentEgressXid else (leaderEgressXid c).getD sr.currentEgressXid

/-- The slot that number is read from: its own, when it is flagged as the leader or there is none, and
otherwise the one of `leader_sibling`, unless that is a BGP sibling. -/
def numberSource (c : State) (i : Nat) (sr : SibRouter) : Option Nat :=
  if sr.isLeader then some i
  else
    match c.leaderSibling with
    | none => some i
    | some (.ospf6 j) => some j
    | some (.bgp _) => none

/-- The sibling that waits for its first egress message, when the event is that message. -/
def firstEgress (c : State) : Event → Option (Nat × SibRouter)
  | .recv (.ospf6 i) msg _ => (c.ospf6Siblings[i]?).bind fun sr =>
      if sr.waitingOnFirstEgressMsg ∧ msg.type = some .forwardOspf6 then some (i, sr) else none
  | _ => none

/-- The slot has no connection. -/
def isClosed (c : State) (i : Nat) : Bool := (c.ospf6Siblings[i]?).all fun sr => decide (sr.state = .disconnected)

/-- What is remembered of a run: the votes won, the slots that have missed one or have counted a request
out of turn, and whether all first egress messages so far went by a sibling in step. -/
structure Lineage where
  votes : Nat
  outOfStep : Nat → Bool
  anchored : Bool

/-- At the start there is nothing to remember. -/
def Lineage.start : Lineage where
  votes := 0
  outOfStep _ := false
  anchored := true

/-- The number of a first egress message is read from an established sibling or, as long as all were in
step, from a routing one in step. -/
def Lineage.vouches (g : Lineage) (c : State) (x : Nat × SibRouter) : Bool :=
  (numberSource c x.1 x.2).any fun j => (c.ospf6Siblings[j]?).any fun sr =>
    isEstablished sr || (g.anchored && !g.outOfStep j && isRouting sr)

/-- What a step adds to it. A slot that is closed after a vote has been won comes back too late. -/
def Lineage.note (c : State) (e : Event) (os : List Output) (g : Lineage) : Lineage where
  votes := g.votes + votesWon os
  outOfStep i := g.outOfStep i || (decide (0 < g.votes) && isClosed c i) || strayAddressReq (.ospf6 i) c e
  anchored := g.anchored && (firstEgress c e).all (g.vouches c)

/-- The event is neither an address request that an established sibling gets answered nor, among
established siblings, a first egress message whose number nothing vouches for. -/
def keepsXid (p : State × Lineage) (e : Event) : Bool :=
  (List.range p.1.ospf6Siblings.length).all (fun i =>
    !(strayAddressReq (.ospf6 i) p.1 e && (p.1.ospf6Siblings[i]?).any isEstablished)) &&
  (firstEgress p.1 e).all fun x => !p.1.ospf6Siblings.any isEstablished || p.2.vouches p.1 x

/-- The requests that a handshake has counted on its way to a state. -/
def requestsDone : SibRouterState → Nat
  | .featuresReqRcvd | .redistributeReqRcvd => 1
  | .featuresRedisReqRcvd | .featuresAddrReqRcvd => 2
  | .routing => 3
  | _ => 0

theorem requestsDone_next {type : Option RfpType} {s new : SibRouterState} (h : requestNext type s = some new) :
    requestsDone new = requestsDone s + 1 ∧ s ≠ .disconnected := by
  unfold requestNext at h
  cases s <;> split at h <;> simp [featuresNext, ifAddressNext, redistributeNext] at h <;> subst h <;>
    exact ⟨rfl, fun hno => by cases hno⟩

theorem isEstablished_moved {type : Option RfpType} {sr : SibRouter} {new : SibRouterState}
    (h : requestNext type sr.state = some new) : isEstablished ((bumpEgressXid sr).moved new) = false := by
  have henters : new = .routing → entersRouting sr.state new = true := by
    rintro rfl
    unfold requestNext at h
    cases hs : sr.state <;> rw [hs] at h <;> split at h <;>
      simp [featuresNext, ifAddressNext, redistributeNext] at h <;> rfl
  by_cases hnew : new = .routing
  · simp [isEstablished, SibRouter.moved, bumpEgressXid, henters hnew]
  · simp [isEstablished, isRouting, SibRouter.moved, hnew]

theorem state_of_isEstablished {sr : SibRouter} (h : isEstablished sr = true) : sr.state = .routing := by
  rw [isEstablished, Bool.and_eq_true] at h
  exact of_decide_eq_true h.1

/-- What a step, short of a vote, does to the number of the sibling at slot `i`. -/
inductive Numbered (c : State) (e : Event) (i : Nat) (new : SibRouter) : Prop where
  | gone (hstate : new.state = .disconnected)
  | kept {sr : SibRouter} (hsr : c.sib (.ospf6 i) = some sr) (hxid : new.currentEgressXid = sr.currentEgressXid)
      (hest : isEstablished new = true → isEstablished sr = true)
      (hstate : sr.state ≠ .disconnected ∧ requestsDone new.state = requestsDone sr.state)
  | fresh (hclosed : isClosed c i = true) (hxid : new.currentEgressXid = 0) (hstate : requestsDone new.state = 0)
  | counted {sr : SibRouter} (hsr : c.sib (.ospf6 i) = some sr) (hxid : new.currentEgressXid = sr.currentEgressXid + 1)
      (hest : isEstablished new = false)
      (hstate : sr.state ≠ .disconnected ∧ requestsDone new.state = requestsDone sr.state + 1)
  | stray {sr : SibRouter} (hsr : c.sib (.ospf6 i) = some sr) (hstray : strayAddressReq (.ospf6 i) c e = true)
      (hest : isEstablished new = isEstablished sr)
  | first {sr : SibRouter} (hsr : c.sib (.ospf6 i) = some sr) (hfirst : firstEgress c e = some (i, sr))
      (hxid : new.currentEgressXid = firstEgressXid c sr) (hstate : new.state = sr.state)

theorem Numbered.of_same {c : State} {e : Event} {i : Nat} {sr new : SibRouter} (hsr : c.sib (.ospf6 i) = some sr)
    (hxid : new.currentEgressXid = sr.currentEgressXid) (hest : isEstablished new = true → isEstablished sr = true)
    (hstate : new.state = sr.state) : Numbered c e i new := by
  by_cases hgone : sr.state = .disconnected
  · exact .gone (hstate.trans hgone)
  · exact .kept hsr hxid hest ⟨hgone, congrArg requestsDone hstate⟩

theorem Numbered.of_egressSib {c : State} {i : Nat} {msg : Rfpbuf} {env : Env} {sr sr' new : SibRouter}
    (hsr : c.sib (.ospf6 i) = some sr) (h : egressSib c msg sr = some sr')
    (hxid : new.currentEgressXid = sr'.currentEgressXid) (hest : isEstablished new = isEstablished sr')
    (hstate : new.state = sr'.state) : Numbered c (.recv (.ospf6 i) msg env) i new := by
  rcases egressSib_cases h with rfl | ⟨hw, rfl⟩
  · exact .of_same hsr hxid (fun h => hest ▸ h) hstate
  · have htype : msg.type = some .forwardOspf6 := by
      unfold egressSib at h
      split at h
      · have := congrArg SibRouter.waitingOnFirstEgressMsg (Option.some.inj h)
        simp [hw] at this
      · next ht => exact ht
      · cases h
    refine .first hsr ?_ hxid hstate
    rw [firstEgress, ← State.sib_ospf6, hsr, Option.bind_some, if_pos ⟨hw, htype⟩]

theorem SlotStep.numbered {c : State} {e : Event} {i : Nat} {new : SibRouter}
    (h : SlotStep c e (.ospf6 i) new) : Numbered c e i new := by
  cases h with
  | same hsr => exact .of_same hsr rfl id rfl
  | opened raw hsr => exact .fresh (by rw [isClosed, ← State.sib_ospf6, hsr]; rfl) rfl rfl
  | reused hsr hstate => exact .fresh (by rw [isClosed, ← State.sib_ospf6, hsr]; simp [hstate]) rfl rfl
  | started hsr hstate => exact .kept hsr rfl nofun ⟨by simp [hstate], by simp [hstate, requestsDone]⟩
  | destroyed hsr => exact .gone rfl
  | @ingressSent _ xid _ sr hsr =>
      refine .of_same hsr ?_ (fun h => by rwa [isEstablished_ingressSent] at h) ?_
      · unfold SibRouter.ingressSent
        split_ifs <;> rfl
      · unfold SibRouter.ingressSent
        split_ifs <;> rfl
  | moved hsr hxid hnext =>
      obtain ⟨hdone, hstate⟩ := requestsDone_next hnext
      exact .counted hsr rfl (isEstablished_moved hnext) ⟨hstate, hdone⟩
  | @bumped _ _ _ sr hsr htype hxid hnext =>
      by_cases hgone : sr.state = .disconnected
      · exact .gone hgone
      · refine .stray hsr ?_ rfl
        simp [strayAddressReq, State.sib_ospf6 c i ▸ hsr, htype, hxid, hgone, hnext]
  | queued hsr hstate hsib hxid => exact .of_egressSib hsr hsib rfl rfl rfl
  | rejected hsr hsib hxid => exact .of_egressSib hsr hsib rfl rfl rfl
  | acked hsr => exact .of_same hsr rfl id rfl
  | leader hsr htype b => exact .of_same hsr rfl id rfl

/-- The number of a first egress message is that of the slot it is read from. -/
theorem firstEgressXid_of_source {c : State} {i j : Nat} {sr l : SibRouter} (hsr : c.sib (.ospf6 i) = some sr)
    (hsource : numberSource c i sr = some j) (hl : c.sib (.ospf6 j) = some l) :
    firstEgressXid c sr = l.currentEgressXid := by
  unfold numberSource at hsource
  unfold firstEgressXid leaderEgressXid
  split_ifs at hsource ⊢ with hleads
  · cases hsource
    rw [hsr] at hl
    cases hl
    rfl
  · split at hsource
    · next hnone =>
        cases hsource
        rw [hsr] at hl
        cases hl
        rw [hnone]
        rfl
    · next hleader =>
        cases hsource
        rw [hleader, Option.bind_some, hl]
        rfl
    · cases hsource

theorem waiting_of_firstEgress {c : State} {e : Event} {i : Nat} {sr : SibRouter}
    (h : firstEgress c e = some (i, sr)) : sr.waitingOnFirstEgressMsg = true := by
  cases e with
  | recv k msg env =>
      cases k with
      | ospf6 j =>
          obtain ⟨x, -, hx⟩ := Option.bind_eq_some_iff.mp h
          split_ifs at hx with hcond
          cases hx
          exact hcond.1
      | bgp j => cases h
  | _ => cases h

/-- The invariant of a run: the established siblings agree, and as long as all first egress messages went by
a sibling in step, every sibling in step has counted its own requests and all the votes. -/
structure InStep (c : State) (g : Lineage) : Prop where
  ok : c.Ok
  same : SameXid c
  established : g.anchored = true → ∀ i sr, c.sib (.ospf6 i) = some sr → isEstablished sr = true →
    sr.currentEgressXid = UInt32.ofNat (g.votes + 3)
  counted : g.anchored = true → ∀ i sr, c.sib (.ospf6 i) = some sr → g.outOfStep i = false →
    sr.state ≠ .disconnected → sr.currentEgressXid = UInt32.ofNat (g.votes + requestsDone sr.state)

namespace InStep

variable {c c' : State} {e : Event} {g : Lineage} {i : Nat} {sr : SibRouter}

/-- A number that is vouched for is the one of all established siblings. -/
theorem eq_of_vouches (h : InStep c g) (hsr : c.sib (.ospf6 i) = some sr) (hv : g.vouches c (i, sr) = true) :
    (∀ j sr', c.sib (.ospf6 j) = some sr' → isEstablished sr' = true →
      sr'.currentEgressXid = firstEgressXid c sr) ∧
    (g.anchored = true → firstEgressXid c sr = UInt32.ofNat (g.votes + 3)) := by
  obtain ⟨j, hj, hl⟩ := (Option.any_eq_true _ _).mp hv
  obtain ⟨l, hl, hest⟩ := (Option.any_eq_true _ _).mp hl
  rw [firstEgressXid_of_source hsr hj hl]
  rw [Bool.or_eq_true, Bool.and_eq_true, Bool.and_eq_true, Bool.not_eq_true'] at hest
  rcases hest with hest | ⟨⟨hanch, hin⟩, hrouting⟩
  · exact ⟨fun k sr' hsr' hest' => h.same k j sr' l hsr' hl hest' hest, fun hanch =>
      h.established hanch j l hl hest⟩
  · have hstate : l.state = .routing := of_decide_eq_true hrouting
    have hxid := h.counted hanch j l hl hin (by rw [hstate]; nofun)
    rw [hstate] at hxid
    exact ⟨fun k sr' hsr' hest' => (h.established hanch k sr' hsr' hest').trans hxid.symm, fun _ => hxid⟩

/-- An established sibling has been one before with the same number, or this was its first egress message,
with a number of which nothing else is established. -/
theorem established_cases (h : InStep c g) (he : keepsXid (c, g) e = true) {new : SibRouter}
    (hnum : Numbered c e i new) (hest : isEstablished new = true) :
    (∃ sr, c.sib (.ospf6 i) = some sr ∧ isEstablished sr = true ∧ new.currentEgressXid = sr.currentEgressXid) ∨
    ∃ sr, c.sib (.ospf6 i) = some sr ∧ firstEgress c e = some (i, sr) ∧
      new.currentEgressXid = firstEgressXid c sr ∧ ∀ j sr', c.sib (.ospf6 j) = some sr' →
        isEstablished sr' = true → sr'.currentEgressXid = new.currentEgressXid := by
  rw [keepsXid, Bool.and_eq_true] at he
  cases hnum with
  | gone hstate =>
      rw [state_of_isEstablished hest] at hstate
      cases hstate
  | kept hsr hxid hest' => exact Or.inl ⟨_, hsr, hest' hest, hxid⟩
  | fresh _ _ hstate =>
      rw [state_of_isEstablished hest] at hstate
      cases hstate
  | counted _ _ hest' =>
      rw [hest] at hest'
      cases hest'
  | stray hsr hstray hest' =>
      have hi := (List.getElem?_eq_some_iff.mp hsr).1
      have := List.all_eq_true.mp he.1 i (List.mem_range.mpr hi)
      rw [hstray, ← State.sib_ospf6, hsr, Option.any_some, ← hest', hest] at this
      cases this
  | first hsr hfirst hxid =>
      refine Or.inr ⟨_, hsr, hfirst, hxid, fun j sr' hsr' hest' => ?_⟩
      have hvouch := he.2
      rw [hfirst, Option.all_some, Bool.or_eq_true, Bool.not_eq_true', List.any_eq_false] at hvouch
      rw [hxid]
      refine (h.eq_of_vouches hsr (hvouch.resolve_left fun hnone => ?_)).1 j sr' hsr' hest'
      exact hnone sr' (List.mem_of_getElem? hsr') hest'

theorem same_stepped (h : InStep c g) (he : keepsXid (c, g) e = true) (hstep : Stepped c e c') :
    SameXid c' := by
  have hnum : ∀ {i new}, c'.sib (.ospf6 i) = some new → Numbered c e i new := fun hnew =>
    (hstep.slot hnew).numbered
  intro i j sr sr' hsr hsr' hest hest'
  rcases h.established_cases he (hnum hsr) hest with ⟨x, hx, hxest, hxid⟩ | ⟨x, hx, hfirst, hxid, hall⟩
  · rcases h.established_cases he (hnum hsr') hest' with ⟨y, hy, hyest, hyid⟩ | ⟨y, hy, -, hyid, hall'⟩
    · rw [hxid, hyid]
      exact h.same i j x y hx hy hxest hyest
    · rw [hxid]
      exact hall' i x hx hxest
  · rcases h.established_cases he (hnum hsr') hest' with ⟨y, hy, hyest, hyid⟩ | ⟨y, hy, hfirst', hyid, -⟩
    · rw [hyid]
      exact (hall j y hy hyest).symm
    · -- one event is one message
      rw [hfirst] at hfirst'
      cases hfirst'
      rw [hxid, hyid]

/-- The step lemma, short of a vote. -/
theorem stepped (h : InStep c g) (he : keepsXid (c, g) e = true) (hstep : Stepped c e c') :
    InStep c' (g.note c e []) where
  ok := h.ok.stepped hstep
  same := h.same_stepped he hstep
  established hanch i new hnew hest := by
    rw [Lineage.note, Bool.and_eq_true] at hanch
    show _ = UInt32.ofNat (g.votes + 0 + 3)
    rcases h.established_cases he (hstep.slot hnew).numbered hest with ⟨x, hx, hxest, hxid⟩ | ⟨x, hx, hfirst, hxid, -⟩
    · rw [hxid]
      exact h.established hanch.1 i x hx hxest
    · rw [hfirst] at hanch
      rw [hxid]
      exact (h.eq_of_vouches hx hanch.2).2 hanch.1
  counted hanch i new hnew hin hstate := by
    simp only [Lineage.note, Bool.and_eq_true] at hanch
    simp only [Lineage.note, Bool.or_eq_false_iff] at hin
    show _ = UInt32.ofNat (g.votes + 0 + requestsDone new.state)
    cases (hstep.slot hnew).numbered with
    | gone hgone => exact absurd hgone hstate
    | kept hsr hxid _ hsame =>
        rw [hxid, hsame.2]
        exact h.counted hanch.1 i _ hsr hin.1.1 hsame.1
    | fresh hclosed hxid hdone =>
        have hzero : g.votes = 0 := by
          have := hin.1.2
          rw [hclosed, Bool.and_true] at this
          exact Nat.eq_zero_of_not_pos (of_decide_eq_false this)
        rw [hxid, hdone, hzero]
        rfl
    | counted hsr hxid _ hsame =>
        rw [hxid, hsame.2, h.counted hanch.1 i _ hsr hin.1.1 hsame.1, ← Nat.add_assoc, UInt32.ofNat_add _ 1]
        rfl
    | stray hsr hstray =>
        rw [hstray] at hin
        cases hin.2
    | first hsr hfirst hxid hsame =>
        rw [hfirst] at hanch
        rw [hxid, hsame, (h.ok.sib_ok _ _ hsr).routing_of_waiting (waiting_of_firstEgress hfirst)]
        exact (h.eq_of_vouches hsr hanch.2).2 hanch.1

/-- A won vote counts on for all. -/
theorem voted (h : InStep c g) : InStep c.voted { g with votes := g.votes + 1 } where
  ok := h.ok.voted
  same i j sr sr' hsr hsr' hest hest' := by
    rw [sib_voted] at hsr hsr'
    obtain ⟨x, hx, rfl⟩ := Option.map_eq_some_iff.mp hsr
    obtain ⟨y, hy, rfl⟩ := Option.map_eq_some_iff.mp hsr'
    exact congrArg (· + 1) (h.same i j x y hx hy hest hest')
  established hanch i sr hsr hest := by
    rw [sib_voted] at hsr
    obtain ⟨x, hx, rfl⟩ := Option.map_eq_some_iff.mp hsr
    show x.currentEgressXid + 1 = UInt32.ofNat (g.votes + 3 + 1)
    rw [h.established hanch i x hx hest, UInt32.ofNat_add (g.votes + 3) 1]
    rfl
  counted hanch i sr hsr hin hstate := by
    rw [sib_voted] at hsr
    obtain ⟨x, hx, rfl⟩ := Option.map_eq_some_iff.mp hsr
    show x.currentEgressXid + 1 = UInt32.ofNat (g.votes + 1 + requestsDone x.state)
    rw [h.counted hanch i x hx hin hstate, Nat.add_right_comm, UInt32.ofNat_add _ 1]
    rfl

/-- The step lemma. -/
theorem step (h : InStep c g) (he : keepsXid (c, g) e = true) (hstep : (machine.step c e).result = some c') :
    InStep c' (g.note c e (machine.step c e).outs) := by
  have hnote : ∀ os, g.note c e os = { g.note c e [] with votes := g.votes + votesWon os } := fun _ => rfl
  rcases step_cases hstep with ⟨hc', hun⟩ | ⟨c1, env, a, hvote, hwin, hc1, rfl⟩
  · rw [hnote, votesWon_of_unvoted hun]
    exact h.stepped he hc'
  · rw [hnote, step_of_voteOf hvote, votesWon_of_winner hwin]
    exact (h.stepped he hc1).voted

end InStep

/-- In a run whose events all keep the number, the established siblings have one sequence number. -/
theorem sameXid_of_run {routers : List Router} {rib : List RibRoute} {numSibs : Int}
    {voterType : VoterType} {es : List Event} {c : State}
    (hall : (machine.recording Lineage.note).AllSteps (fun p e => keepsXid p e = true)
      (State.sibRouterInit routers rib numSibs voterType, Lineage.start) es)
    (hrun : (machine.run (State.sibRouterInit routers rib numSibs voterType) es).result = some c) :
    SameXid c := by
  obtain ⟨g, hrec⟩ : ∃ g, ((machine.recording Lineage.note).run
      (State.sibRouterInit routers rib numSibs voterType, Lineage.start) es).result = some (c, g) :=
    machine.exists_run_recording hrun
  have hstart : InStep (State.sibRouterInit routers rib numSibs voterType) Lineage.start :=
    ⟨ok_sibRouterInit _ _ _ _, fun i _ _ _ hsr => by simp [State.sibRouterInit] at hsr,
      fun _ i _ hsr => by simp [State.sibRouterInit] at hsr, fun _ i _ hsr => by simp [State.sibRouterInit] at hsr⟩
  refine ((machine.recording Lineage.note).run_invariant_of_allSteps (P := fun p => InStep p.1 p.2) hstart hall ?_
    hrec).same
  intro p e p' h he hstep
  obtain ⟨c', hc', rfl⟩ := Option.map_eq_some_iff.mp hstep
  exact h.step he hc'

/-- Three siblings with the first as leader. The last one sends its first message after a vote; then the
second one restarts, and its first message takes over the leader's number. -/
theorem sameXid_of_three : ∃ c, (machine.run (State.sibRouterInit [⟨[]⟩] [] 3 .all) (connectAll 3 ++
      [announceLeader 0, sendOspf6 0 3 [], sendOspf6 1 3 [], sendOspf6 2 4 [], .destroy (.ospf6 1),
        .acceptOspf6 zeroedSib] ++ handshake 1 ++ [sendOspf6 1 4 []])).result = some c ∧
    c.ospf6Siblings.map (fun sr => (isEstablished sr, sr.currentEgressXid)) = [(true, 5), (true, 5), (true, 5)] ∧
    SameXid c := by
  obtain ⟨c, hc, hest⟩ := exists_of_any
    (p := fun c => c.ospf6Siblings.map (fun sr => (isEstablished sr, sr.currentEgressXid)) =
      [(true, 5), (true, 5), (true, 5)])
    (o := (machine.run (State.sibRouterInit [⟨[]⟩] [] 3 .all) (connectAll 3 ++
      [announceLeader 0, sendOspf6 0 3 [], sendOspf6 1 3 [], sendOspf6 2 4 [], .destroy (.ospf6 1),
        .acceptOspf6 zeroedSib] ++ handshake 1 ++ [sendOspf6 1 4 []])).result) (by decide)
  exact ⟨c, hc, hest, sameXid_of_run (by decide) hc⟩

/-- The leader reconnects: its slot still says that it leads, so its first message leaves it at the
number of its own handshake. -/
theorem leader_restarts_behind : ∃ c, (machine.run (State.sibRouterInit [⟨[]⟩] [] 3 .all) (connectAll 3 ++
      [announceLeader 0, sendOspf6 0 3 [], sendOspf6 1 3 [], sendOspf6 2 4 [], .destroy (.ospf6 0),
        .acceptOspf6 zeroedSib] ++ handshake 0 ++ [sendOspf6 0 4 []])).result = some c ∧ ¬ SameXid c := by
  obtain ⟨c, hc, sr, hsr, sr', hsr', hest, hest', hne⟩ := exists_of_any
    (p := fun c => ∃ sr ∈ c.ospf6Siblings, ∃ sr' ∈ c.ospf6Siblings, isEstablished sr = true ∧
      isEstablished sr' = true ∧ sr.currentEgressXid ≠ sr'.currentEgressXid)
    (o := (machine.run (State.sibRouterInit [⟨[]⟩] [] 3 .all) (connectAll 3 ++
      [announceLeader 0, sendOspf6 0 3 [], sendOspf6 1 3 [], sendOspf6 2 4 [], .destroy (.ospf6 0),
        .acceptOspf6 zeroedSib] ++ handshake 0 ++ [sendOspf6 0 4 []])).result) (by decide)
  obtain ⟨i, hi⟩ := List.mem_iff_getElem?.mp hsr
  obtain ⟨j, hj⟩ := List.mem_iff_getElem?.mp hsr'
  exact ⟨c, hc, fun h => hne (h i j sr sr' hi hj hest hest')⟩

end Harry.Controller
