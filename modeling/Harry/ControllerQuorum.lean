import Harry.ControllerStep

/-! Quorum safety of the voter under `VOTER_ALL`. What `vote_majority` sends is the head of the
queue of more than half of the configured siblings, and a queue holds only what its own sibling has
sent; so a minority cannot bring a message of its own through a vote. BGP packets are not voted
on. -/

open Harry.Base Harry.Rfp

namespace Harry.Controller

/-- What waits in the queue of a slot has been sent by the siblings in that slot. -/
def QueuesSent (es : List Event) (c : State) : Prop :=
  ∀ k sr, c.sib k = some sr → ∀ m ∈ sr.msgsRcvdQueue, ∃ env, Event.recv k m env ∈ es

theorem QueuesSent.stepped {es : List Event} {c c' : State} {e : Event} (h : QueuesSent es c)
    (hstep : Stepped c e c') : QueuesSent (es ++ [e]) c' := by
  intro k new hnew m hm
  have hold : ∀ sr, c.sib k = some sr → m ∈ sr.msgsRcvdQueue → ∃ env, Event.recv k m env ∈ es ++ [e] := by
    intro sr hsr hmem
    obtain ⟨env, henv⟩ := h k sr hsr m hmem
    exact ⟨env, List.mem_append_left _ henv⟩
  have happend : ∀ {sr sr' msg env}, c.sib k = some sr → egressSib c msg sr = some sr' →
      e = .recv k msg env → m ∈ sr'.msgsRcvdQueue ++ [msg] → ∃ env, Event.recv k m env ∈ es ++ [e] := by
    intro sr sr' msg env hsr hsib he hmem
    rcases List.mem_append.mp hmem with hmem | hmem
    · exact hold sr hsr (egressSib_queue hsib ▸ hmem)
    · rw [List.mem_singleton.mp hmem]
      exact ⟨env, by simp [he]⟩
  cases hstep.slot hnew with
  | same hsr => exact hold _ hsr hm
  | opened raw hsr => cases hm
  | reused hsr hstate => cases hm
  | started hsr hstate => exact hold _ hsr hm
  | destroyed hsr => cases hm
  | ingressSent hsr =>
      refine hold _ hsr ?_
      unfold SibRouter.ingressSent at hm
      split_ifs at hm <;> exact hm
  | moved hsr hxid hnext => exact hold _ hsr hm
  | bumped hsr htype hxid hnext => exact hold _ hsr hm
  | queued hsr hstate hsib hxid => exact happend hsr hsib rfl hm
  | rejected hsr hsib hxid => exact hold _ hsr (egressSib_queue hsib ▸ hm)
  | acked hsr => exact hold _ hsr hm
  | leader hsr htype b => exact hold _ hsr hm

theorem QueuesSent.voted {es : List Event} {c : State} (h : QueuesSent es c) : QueuesSent es c.voted := by
  intro k sr hsr m hm
  rw [sib_voted] at hsr
  cases k with
  | ospf6 i =>
      obtain ⟨old, hold, rfl⟩ := Option.map_eq_some_iff.mp hsr
      exact h _ old hold m (List.mem_of_mem_tail hm)
  | bgp i => exact h _ sr hsr m hm

/-- The invariant behind quorum safety, over a run from the start. -/
theorem queuesSent_of_run {routers : List Router} {rib : List RibRoute} {numSibs : Int}
    {voterType : VoterType} {es : List Event} {c : State}
    (h : (machine.run (State.sibRouterInit routers rib numSibs voterType) es).result = some c) :
    QueuesSent es c := by
  refine machine.run_invariant_history (P := QueuesSent) ?_ (fun es c e c' hsent hstep => ?_) h
  · intro k sr hsr
    cases k <;> simp [State.sibRouterInit] at hsr
  · exact step_invariant (fun _ => hsent.stepped) (fun _ => QueuesSent.voted) hstep

/-- What an event hands to a router: a BGP packet as it came, or the winner of a vote. -/
theorem routerForward_of_step {c : State} {e : Event} {site : CallSite} {r : Nat} {m : Rfpbuf}
    (h : .routerForward site r m ∈ (machine.step c e).outs) :
    (site = .forwardBgp ∧ m.type = some .forwardBgp) ∨
      (site = .voteMajority ∧ ∃ c' env, voteOf c e = some (c', env) ∧ winner c' = some m) := by
  cases hvote : voteOf c e with
  | none =>
      have := unvoted_of_voteOf_eq_none hvote h
      cases site with
      | voteMajority => exact this.elim
      | forwardBgp => exact Or.inl ⟨rfl, this⟩
  | some p =>
      obtain ⟨c', env⟩ := p
      rw [step_of_voteOf hvote] at h
      obtain ⟨rfl, hwin⟩ := winner_of_routerForward h
      exact Or.inr ⟨rfl, c', env, rfl, hwin⟩

/-- Some event of the run called `vote_majority` where the siblings of a set `S`, and no other ones that are connected,
have `m` at the head of their queues. They are more than half of those configured, each of them has sent `m` itself, and
every minority `F` misses one of them. -/
def VotedByQuorum (init : State) (es : List Event) (m : Rfpbuf) : Prop :=
  ∃ (pre post : List Event) (e : Event) (c c' : State) (env : Env) (S : Finset ℕ),
    es = pre ++ e :: post ∧ (machine.run init pre).result = some c ∧ voteOf c e = some (c', env) ∧
    (∀ i, i ∈ S ↔ ∃ sr, c'.ospf6Siblings[i]? = some sr ∧ sr.state ≠ .disconnected ∧
      sr.msgsRcvdQueue.head? = some m) ∧
    init.numSibsConf < 2 * S.card ∧
    (∀ i ∈ S, ∃ env, Event.recv (.ospf6 i) m env ∈ pre ++ [e]) ∧
    ∀ F : Finset ℕ, 2 * (F.card : Int) ≤ init.numSibsConf → ∃ i ∈ S, i ∉ F

/-- Only a BGP packet gets to a router without a vote. -/
theorem quorum_of_routerForward {routers : List Router} {rib : List RibRoute} {numSibs : Int}
    {es : List Event} {site : CallSite} {r : Nat} {m : Rfpbuf}
    (h : .routerForward site r m ∈ (machine.run (State.sibRouterInit routers rib numSibs .all) es).outs) :
    (site = .forwardBgp ∧ m.type = some .forwardBgp) ∨
      VotedByQuorum (State.sibRouterInit routers rib numSibs .all) es m := by
  obtain ⟨pre, e, post, c, hes, hpre, ho⟩ := machine.mem_outs_run h
  refine (routerForward_of_step ho).imp_right fun ⟨_, c', env, hvote, hwin⟩ => ?_
  have hreach : Reached numSibs .all c := ⟨routers, rib, pre, hpre⟩
  have hstep := stepped_of_voteOf hvote
  have hok : c'.Ok := hreach.ok.stepped hstep
  have hsent : QueuesSent (pre ++ [e]) c' := (queuesSent_of_run hpre).stepped hstep
  have hhosts : numHosts c' = numSibs := by
    rw [numHosts_all (hstep.conf.2.trans hreach.conf.2), hstep.conf.1, hreach.conf.1]
  have hmaj := (lt_countP_of_winner hok.queue_eq_nil hwin).1
  rw [hhosts] at hmaj
  refine ⟨pre, post, e, c, c', env, positions (votesFor m) c'.ospf6Siblings, hes, hpre, hvote,
    fun i => ?_, by rw [card_positions]; exact hmaj, fun i hi => ?_, fun F hF => ?_⟩
  · rw [mem_positions]
    exact exists_congr fun sr => and_congr_right fun _ => votesFor_iff
  · obtain ⟨sr, hsr, hv⟩ := mem_positions.mp hi
    exact hsent (.ospf6 i) sr hsr m (List.mem_of_mem_head? (votesFor_iff.mp hv).2)
  · replace hF : 2 * (F.card : Int) ≤ numSibs := hF
    obtain ⟨i, hi, hiF⟩ := exists_mem_positions_not_mem (n := numSibs.toNat) (F := F) (p := votesFor m)
      (l := c'.ospf6Siblings) (by omega) (by omega)
    exact ⟨i, hi, hiF⟩

/-- Three siblings, two of them in agreement. -/
theorem quorum_of_two_of_three :
    VotedByQuorum (State.sibRouterInit [⟨[]⟩] [] 3 .all) (connectAll 3 ++ [sendOspf6 0 3 [], sendOspf6 1 3 []])
      (.routeflowAllocXid .forwardOspf6 3 []) := by
  have h : .routerForward .voteMajority 0 (.routeflowAllocXid .forwardOspf6 3 []) ∈
      (machine.run (State.sibRouterInit [⟨[]⟩] [] 3 .all)
        (connectAll 3 ++ [sendOspf6 0 3 [], sendOspf6 1 3 []])).outs := by decide
  rcases quorum_of_routerForward h with ⟨hsite, -⟩ | hquorum
  · cases hsite
  · exact hquorum

/-- A single sibling out of three gets a packet to the router by calling it a BGP packet. -/
theorem minority_sends_forwardBgp :
    ¬ ∀ (es : List Event) (F : Finset ℕ) (site : CallSite) (r : Nat) (m : Rfpbuf), 2 * F.card ≤ 3 →
      .routerForward site r m ∈ (machine.run (State.sibRouterInit [⟨[]⟩] [] 3 .all) es).outs →
      ∃ i, i ∉ F ∧ ∃ env, Event.recv (.ospf6 i) m env ∈ es := by
  intro h
  obtain ⟨i, hi, env, hmem⟩ := h
    [.acceptOspf6 zeroedSib, .start (.ospf6 0),
      .recv (.ospf6 0) (.routeflowAllocXid .forwardBgp 0 []) promptEnv]
    {0} .forwardBgp 0 (.routeflowAllocXid .forwardBgp 0 []) (by decide) (by decide)
  simp at hmem
  exact hi (by simp [hmem.1])

end Harry.Controller
