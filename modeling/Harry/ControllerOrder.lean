import Harry.ControllerCompleteness
import Harry.ControllerQuorum

/-! Order of the egress messages under `VOTER_ALL`. Nothing in `vote_majority` looks at a sequence
number. But the queues are first in, first out, and any two winning votes have a sibling in common;
if no sibling presents its messages out of order, neither does the controller, whatever is lost on
the way. What the voter can still get wrong is the buffer itself: the first router that takes the
whole of it frees it under the routers after it. -/

open Harry.Base Harry.Rfp
open scoped List

namespace Harry.Controller

/-- The messages that are voted on. -/
def isEgress (msg : Rfpbuf) : Bool :=
  decide (msg.type = some .forwardOspf6) || decide (msg.type = some .ipv6RouteSetRequest)

/-- The egress message that an event presents at slot `i`. -/
def Event.egressAt (i : Nat) : Event → Option Rfpbuf
  | .recv (.ospf6 j) msg _ => if j = i ∧ isEgress msg then some msg else none
  | _ => none

/-- The egress messages that the siblings in slot `i` present in a run. -/
def presented (i : Nat) (es : List Event) : List Rfpbuf := es.filterMap (Event.egressAt i)

theorem presented_append (i : Nat) (es fs : List Event) :
    presented i (es ++ fs) = presented i es ++ presented i fs :=
  List.filterMap_append

theorem isEgress_of_egressSib {c : State} {msg : Rfpbuf} {sr sr' : SibRouter}
    (h : egressSib c msg sr = some sr') : isEgress msg = true := by
  unfold egressSib at h
  split at h
  · next ht => simp [isEgress, ht]
  · next ht => simp [isEgress, ht]
  · cases h

theorem presented_recv {c : State} {i : Nat} {msg : Rfpbuf} {env : Env} {sr sr' : SibRouter}
    (h : egressSib c msg sr = some sr') : presented i [.recv (.ospf6 i) msg env] = [msg] := by
  simp [presented, Event.egressAt, isEgress_of_egressSib h]

/-- Slot `i` has presented the messages of `p` and then, in this order, those that it has queued. -/
structure QueuedAfter (p : List Rfpbuf) (i : Nat) (es : List Event) (c : State) : Prop where
  sublist : p <+ presented i es
  queue_sublist : ∀ sr, c.ospf6Siblings[i]? = some sr → p ++ sr.msgsRcvdQueue <+ presented i es

namespace QueuedAfter

variable {p : List Rfpbuf} {i : Nat} {es : List Event} {c c' : State}

/-- The step lemma: a message can only join its own queue, at the end. -/
theorem stepped {e : Event} (h : QueuedAfter p i es c) (hstep : Stepped c e c') :
    QueuedAfter p i (es ++ [e]) c' := by
  have hmono : ∀ {q : List Rfpbuf}, q <+ presented i es → q <+ presented i (es ++ [e]) := fun hq => by
    rw [presented_append]
    exact hq.trans (List.sublist_append_left _ _)
  have hold : ∀ sr {q : List Rfpbuf}, c.sib (.ospf6 i) = some sr → q = sr.msgsRcvdQueue →
      p ++ q <+ presented i (es ++ [e]) := by
    rintro sr q hsr rfl
    exact hmono (h.queue_sublist sr hsr)
  have hnil : p ++ [] <+ presented i (es ++ [e]) := by
    rw [List.append_nil]
    exact hmono h.sublist
  have happend : ∀ {sr sr' msg env}, c.ospf6Siblings[i]? = some sr → egressSib c msg sr = some sr' →
      e = .recv (.ospf6 i) msg env → p ++ (sr'.msgsRcvdQueue ++ [msg]) <+ presented i (es ++ [e]) := by
    rintro sr sr' msg env hsr hsib rfl
    rw [egressSib_queue hsib, presented_append, presented_recv hsib, ← List.append_assoc]
    exact (h.queue_sublist sr hsr).append (List.Sublist.refl _)
  refine ⟨hmono h.sublist, fun new hnew => ?_⟩
  cases hstep.slot (k := .ospf6 i) hnew with
  | same hsr => exact hold _ hsr rfl
  | opened raw hsr => exact hnil
  | reused hsr hstate => exact hnil
  | started hsr hstate => exact hold _ hsr rfl
  | destroyed hsr => exact hnil
  | ingressSent hsr =>
      unfold SibRouter.ingressSent
      split_ifs <;> exact hold _ hsr rfl
  | moved hsr hxid hnext => exact hold _ hsr rfl
  | bumped hsr htype hxid hnext => exact hold _ hsr rfl
  | queued hsr hstate hsib hxid => exact happend hsr hsib rfl
  | rejected hsr hsib hxid => exact hold _ hsr (egressSib_queue hsib)
  | acked hsr => exact hold _ hsr rfl
  | leader hsr htype b => exact hold _ hsr rfl

theorem voted (h : QueuedAfter p i es c) : QueuedAfter p i es c.voted := by
  refine ⟨h.sublist, fun new hnew => ?_⟩
  rw [← State.sib_ospf6, sib_voted] at hnew
  obtain ⟨old, hold, rfl⟩ := Option.map_eq_some_iff.mp hnew
  exact ((List.Sublist.refl p).append (List.tail_sublist _)).trans (h.queue_sublist old hold)

/-- A sibling that has voted for `a` has presented `a` before all that is left in its queue. -/
theorem voted_self {a : Rfpbuf} (h : QueuedAfter [] i es c) (hi : i ∈ positions (votesFor a) c.ospf6Siblings) :
    QueuedAfter [a] i es c.voted := by
  obtain ⟨sr, hsr, hv⟩ := mem_positions.mp hi
  have hq : sr.msgsRcvdQueue = a :: sr.msgsRcvdQueue.tail :=
    List.eq_cons_of_mem_head? (votesFor_iff.mp hv).2
  have hsub : a :: sr.msgsRcvdQueue.tail <+ presented i es := hq ▸ h.queue_sublist sr hsr
  refine ⟨(List.singleton_sublist.mpr List.mem_cons_self).trans hsub, fun new hnew => ?_⟩
  rw [← State.sib_ospf6, sib_voted, State.sib_ospf6, hsr] at hnew
  cases hnew
  exact hsub

/-- Where nothing is presented out of order, a vote for `a` comes after what was presented before. -/
theorem xid_lt {a m : Rfpbuf} (h : QueuedAfter [m] i es c)
    (hinc : (presented i es).Pairwise fun x y => x.xid < y.xid)
    (hi : i ∈ positions (votesFor a) c.ospf6Siblings) : m.xid < a.xid := by
  obtain ⟨sr, hsr, hv⟩ := mem_positions.mp hi
  have hpair := hinc.sublist (h.queue_sublist sr hsr)
  exact (List.pairwise_append.mp hpair).2.2 m (List.mem_singleton_self m) a
    (List.mem_of_mem_head? (votesFor_iff.mp hv).2)

end QueuedAfter

/-- The invariant of a run: whatever was forwarded to router `r` had a majority, and each sibling of
it presented that message before all that it has queued now. -/
structure InOrder (numSibs : Int) (r : Nat) (es : List Event) (os : List Output) (c : State) : Prop where
  ok : c.Ok
  conf : c.numSibsConf = numSibs ∧ c.voterTypeConf = .all
  queued : ∀ i, QueuedAfter [] i es c
  forwarded : ∀ m ∈ forwardedTo r os, ∃ S : Finset ℕ, S ⊆ Finset.range numSibs.toNat ∧
    numSibs.toNat < 2 * S.card ∧ ∀ i ∈ S, QueuedAfter [m] i es c

theorem InOrder.stepped {numSibs : Int} {r : Nat} {es : List Event} {os : List Output} {c c' : State}
    {e : Event} (h : InOrder numSibs r es os c) (hstep : Stepped c e c') :
    InOrder numSibs r (es ++ [e]) os c' where
  ok := h.ok.stepped hstep
  conf := ⟨hstep.conf.1.trans h.conf.1, hstep.conf.2.trans h.conf.2⟩
  queued i := (h.queued i).stepped hstep
  forwarded m hm := by
    obtain ⟨S, hS, hcard, hqueued⟩ := h.forwarded m hm
    exact ⟨S, hS, hcard, fun i hi => (hqueued i hi).stepped hstep⟩

theorem forwardedTo_of_unvoted {r : Nat} {os : List Output} (h : ∀ o ∈ os, o.Unvoted) :
    forwardedTo r os = [] :=
  forwardedTo_eq_nil fun o ho i m heq => by
    have := h o ho
    rw [heq] at this
    exact this

section Vote

variable {numSibs : Int} {r : Nat} {es : List Event} {os : List Output} {c : State} {a : Rfpbuf}

/-- The voters of a won vote are a majority of the slots. -/
theorem InOrder.voters (h : InOrder numSibs r es os c) (hready : readyToVote c = true)
    (hwin : winner c = some a) :
    positions (votesFor a) c.ospf6Siblings ⊆ Finset.range numSibs.toNat ∧
      numSibs.toNat < 2 * (positions (votesFor a) c.ospf6Siblings).card := by
  obtain ⟨hmaj, hpos⟩ := lt_countP_of_winner h.ok.queue_eq_nil hwin
  rw [numHosts_all h.conf.2, h.conf.1] at hmaj hpos
  have hlen : c.ospf6Siblings.length = numSibs.toNat := by
    have hn : (c.nOspf6Siblings : Int) = c.numSibsConf := by
      rw [readyToVote, Bool.and_eq_true] at hready
      exact of_decide_eq_true hready.1
    have hlen := h.ok.length_eq
    have hconf := h.conf.1
    omega
  refine ⟨hlen ▸ positions_subset_range _ _, ?_⟩
  rw [card_positions]
  omega

/-- After a won vote the winner is one of the forwarded messages. -/
theorem InOrder.voted (h : InOrder numSibs r es os c) (hready : readyToVote c = true)
    (hwin : winner c = some a) {os' : List Output} (hos : ∀ m ∈ forwardedTo r os', m = a) :
    InOrder numSibs r es (os ++ os') c.voted where
  ok := h.ok.voted
  conf := h.conf
  queued i := (h.queued i).voted
  forwarded m hm := by
    rw [forwardedTo_append, List.mem_append] at hm
    rcases hm with hm | hm
    · obtain ⟨S, hS, hcard, hqueued⟩ := h.forwarded m hm
      exact ⟨S, hS, hcard, fun i hi => (hqueued i hi).voted⟩
    · rw [hos m hm]
      obtain ⟨hS, hcard⟩ := h.voters hready hwin
      exact ⟨_, hS, hcard, fun i hi => (h.queued i).voted_self hi⟩

/-- The winner comes after everything forwarded before. -/
theorem InOrder.xid_lt (h : InOrder numSibs r es os c) (hready : readyToVote c = true)
    (hwin : winner c = some a) (hinc : ∀ i, (presented i es).Pairwise fun x y => x.xid < y.xid)
    {m : Rfpbuf} (hm : m ∈ forwardedTo r os) : m.xid < a.xid := by
  obtain ⟨S, hS, hcard, hqueued⟩ := h.forwarded m hm
  obtain ⟨hT, hcardT⟩ := h.voters hready hwin
  obtain ⟨i, hiS, hiT⟩ := exists_mem_of_majorities hS hT hcard hcardT
  exact (hqueued i hiS).xid_lt (hinc i) hiT

end Vote

/-- The step of the run: what goes to router `r` comes after all that went there before. -/
theorem InOrder.step {numSibs : Int} {r : Nat} {es : List Event} {os : List Output} {c : State} (e : Event)
    (h : InOrder numSibs r es os c) :
    (∀ t, (machine.step c e).result = some t →
      InOrder numSibs r (es ++ [e]) (os ++ (machine.step c e).outs) t) ∧
    ((∀ i, (presented i (es ++ [e])).Pairwise fun x y => x.xid < y.xid) →
      (forwardedTo r os).Pairwise (fun x y => x.xid < y.xid) →
      (forwardedTo r (os ++ (machine.step c e).outs)).Pairwise fun x y => x.xid < y.xid) := by
  have hkeep : ∀ {os' c'}, forwardedTo r os' = [] → InOrder numSibs r (es ++ [e]) os c' →
      InOrder numSibs r (es ++ [e]) (os ++ os') c' := by
    intro os' c' hnil hc'
    refine ⟨hc'.ok, hc'.conf, hc'.queued, ?_⟩
    rw [forwardedTo_append, hnil, List.append_nil]
    exact hc'.forwarded
  cases hvote : voteOf c e with
  | none =>
      have hnil : forwardedTo r (machine.step c e).outs = [] :=
        forwardedTo_of_unvoted fun o ho => unvoted_of_voteOf_eq_none hvote ho
      refine ⟨fun t ht => hkeep hnil (h.stepped (stepped_of_voteOf_eq_none hvote ht)), fun _ hos => ?_⟩
      rw [forwardedTo_append, hnil, List.append_nil]
      exact hos
  | some p =>
      obtain ⟨c', env⟩ := p
      have hready := readyToVote_of_voteOf hvote
      have hc' := h.stepped (stepped_of_voteOf hvote)
      rw [step_of_voteOf hvote]
      cases hwin : winner c' with
      | none =>
          have hnil : forwardedTo r (voteMajority env c').outs = [] := forwardedTo_of_winner_eq_none hwin r
          refine ⟨fun t ht => ?_, fun _ hos => ?_⟩
          · rcases result_voteMajority ht with ⟨-, rfl⟩ | ⟨a, ha, -⟩
            · exact hkeep hnil hc'
            · rw [hwin] at ha
              cases ha
          · rw [forwardedTo_append, hnil, List.append_nil]
            exact hos
      | some a =>
          have honly : ∀ m ∈ forwardedTo r (voteMajority env c').outs, m = a := by
            intro m hm
            have := (winner_of_routerForward (mem_forwardedTo.mp hm)).2
            rw [hwin] at this
            exact (Option.some.inj this).symm
          refine ⟨fun t ht => ?_, fun hinc hos => ?_⟩
          · rcases result_voteMajority ht with ⟨hnone, -⟩ | ⟨-, -, rfl, -⟩
            · rw [hwin] at hnone
              cases hnone
            · exact hc'.voted hready hwin honly
          · rw [forwardedTo_append, List.pairwise_append]
            refine ⟨hos, ?_, fun m hm x hx => ?_⟩
            · rw [forwardedTo_of_winner hwin]
              split_ifs <;> simp
            · rw [honly x hx]
              exact hc'.xid_lt hready hwin hinc hm

/-- Where every slot presents increasing sequence numbers, so does the voter to every router. -/
theorem forwardedTo_pairwise_xid_lt (routers : List Router) (rib : List RibRoute) (numSibs : Int)
    (es : List Event) (hinc : ∀ i, (presented i es).Pairwise fun x y => x.xid < y.xid) (r : Nat) :
    (forwardedTo r (machine.run (State.sibRouterInit routers rib numSibs .all) es).outs).Pairwise
      fun x y => x.xid < y.xid := by
  refine (machine.run_history (P := InOrder numSibs r)
    (Q := fun es os => (∀ i, (presented i es).Pairwise fun x y => x.xid < y.xid) →
      (forwardedTo r os).Pairwise fun x y => x.xid < y.xid) ?_ ?_ ?_ ?_ es).1 hinc
  · refine ⟨ok_sibRouterInit _ _ _ _, ⟨rfl, rfl⟩, fun i => ⟨List.nil_sublist _, nofun⟩, nofun⟩
  · exact fun _ => List.Pairwise.nil
  · intro es os c e hP hQ
    refine ⟨fun hinc => (hP.step e).2 hinc (hQ fun i => ?_), (hP.step e).1⟩
    have := hinc i
    rw [presented_append] at this
    exact (List.pairwise_append.mp this).1
  · intro es os e hQ hinc
    refine hQ fun i => ?_
    have := hinc i
    rw [presented_append] at this
    exact (List.pairwise_append.mp this).1

/-- A vote that the step wins hands its message, and not a freed buffer, to every router. -/
def ServesRouters (c : State) (e : Event) : Prop :=
  ∀ p ∈ voteOf c e, ∀ a ∈ winner p.1, ForwardsToAll p.2 p.1 a

/-- In a vote that the step wins there is at most one router, or no write before the last takes the
whole buffer. -/
def OutlivesVote (c : State) (e : Event) : Prop :=
  ∀ p ∈ voteOf c e, winner p.1 ≠ none → p.1.routers.length ≤ 1 ∨
    ∀ j, j + 1 < p.1.routers.length → p.2.whole j = false

theorem servesRouters_iff {c : State} {e : Event} : ServesRouters c e ↔ OutlivesVote c e := by
  refine forall₂_congr fun p _ => ?_
  cases hwin : winner p.1 with
  | none =>
      refine ⟨fun _ hne => absurd rfl hne, fun _ a ha => ?_⟩
      cases ha
  | some a =>
      have hserved : ForwardsToAll p.2 p.1 a ↔ p.1.routers = [] ∨ p.2.Survives p.1.routers.length := by
        rw [forwardsToAll_iff_winner, hwin, and_iff_right rfl]
      constructor
      · intro h _
        rcases hserved.mp (h a rfl) with hnil | hs
        · exact Or.inl (by simp [hnil])
        · exact Or.inr fun j hj => hs j (by omega)
      · intro h a' ha'
        cases ha'
        refine hserved.mpr (Or.inr fun j hj => ?_)
        rcases h (by nofun) with hone | hall
        · omega
        · exact hall j (by omega)

/-- At most once and in order: every vote of the run gets its message to every router, and no router
gets a message twice or after a later one. -/
structure InOrderEgress (init : State) (es : List Event) : Prop where
  served : machine.AllSteps ServesRouters init es
  increasing : ∀ r, (forwardedTo r (machine.run init es).outs).Pairwise fun x y => x.xid < y.xid

theorem allSteps_servesRouters_iff {init : State} {es : List Event} :
    machine.AllSteps ServesRouters init es ↔ machine.AllSteps OutlivesVote init es :=
  machine.allSteps_iff_of_invariant (J := fun _ => True) (fun _ _ _ => servesRouters_iff)
    (fun _ _ _ _ _ => trivial) trivial

/-- Where every slot presents increasing sequence numbers, the egress is in order exactly when in each
vote the buffer outlives the loop over the routers. -/
theorem inOrderEgress_iff (routers : List Router) (rib : List RibRoute) (numSibs : Int)
    (es : List Event) (hinc : ∀ i, (presented i es).Pairwise fun x y => x.xid < y.xid) :
    InOrderEgress (State.sibRouterInit routers rib numSibs .all) es ↔
      machine.AllSteps OutlivesVote (State.sibRouterInit routers rib numSibs .all) es := by
  constructor
  · intro h
    exact allSteps_servesRouters_iff.mp h.served
  · intro h
    exact ⟨allSteps_servesRouters_iff.mpr h, forwardedTo_pairwise_xid_lt routers rib numSibs es hinc⟩

instance (c : State) (e : Event) : Decidable (OutlivesVote c e) :=
  decidable_of_iff (∀ p ∈ voteOf c e, winner p.1 ≠ none → p.1.routers.length ≤ 1 ∨
      ∀ j < p.1.routers.length - 1, p.2.whole j = false)
    (forall₃_congr fun p _ _ => or_congr Iff.rfl
      (forall_congr' fun j => by rw [Nat.lt_sub_iff_add_lt]))

/-- Three siblings, one of which skips a sequence number, and one router. -/
theorem inOrderEgress_of_three :
    let es := [.acceptOspf6 zeroedSib, .acceptOspf6 zeroedSib, .acceptOspf6 zeroedSib, .start (.ospf6 0),
      .start (.ospf6 1), .start (.ospf6 2), sendOspf6 0 0 [], sendOspf6 2 1 [], sendOspf6 1 0 [],
      sendOspf6 2 2 [], sendOspf6 0 1 [], sendOspf6 1 1 []]
    (forwardedTo 0 (machine.run (State.sibRouterInit [⟨[]⟩] [] 3 .all) es).outs).map (·.xid) = [0, 1] ∧
    InOrderEgress (State.sibRouterInit [⟨[]⟩] [] 3 .all) es := by
  intro es
  refine ⟨by decide, (inOrderEgress_iff _ _ _ es fun i => ?_).mpr (by decide)⟩
  match i with
  | 0 => decide
  | 1 => decide
  | 2 => decide
  | i + 3 => simp [es, presented, Event.egressAt, sendOspf6, List.filterMap_cons]

/-- The second of two routers is handed the buffer that the first one has taken whole. -/
theorem not_inOrderEgress_of_two_routers :
    let es := [.acceptOspf6 zeroedSib, .start (.ospf6 0), sendOspf6 0 0 []]
    (∀ i, (presented i es).Pairwise fun x y => x.xid < y.xid) ∧
      ¬ InOrderEgress (State.sibRouterInit [⟨[]⟩, ⟨[]⟩] [] 1 .all) es := by
  intro es
  have hlives : ¬ machine.AllSteps OutlivesVote (State.sibRouterInit [⟨[]⟩, ⟨[]⟩] [] 1 .all) es := by
    decide
  refine ⟨fun i => ?_, fun h => hlives (allSteps_servesRouters_iff.mp h.served)⟩
  match i with
  | 0 => decide
  | i + 1 => simp [es, presented, Event.egressAt, sendOspf6, List.filterMap_cons]

end Harry.Controller
