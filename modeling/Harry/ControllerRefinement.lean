import Harry.ControllerOrder
import Harry.ControllerCompleteness

/-! The voter as one replica. Siblings that all send one and the same sequence of egress messages,
each as much of it as it likes and in any interleaving, make the controller forward that sequence as
far as a majority has come. The simulation relation `Tracks` says how far that is, and what waits in
the queues of those that are ahead. -/

open Harry.Base Harry.Rfp

namespace Harry.Controller

/-- The siblings among the first `n` slots that have presented their message number `j`. -/
def senders (n : Nat) (es : List Event) (j : Nat) : Finset ℕ :=
  (Finset.range n).filter fun i => j < (presented i es).length

/-- How many messages of a sequence of `len` more than half of the `n` siblings have presented. -/
def agreed (n len : Nat) (es : List Event) : Nat :=
  ((Finset.range len).filter fun j => n < 2 * (senders n es j).card).card

theorem mem_senders {n j i : Nat} {es : List Event} :
    i ∈ senders n es j ↔ i < n ∧ j < (presented i es).length := by
  rw [senders, Finset.mem_filter, Finset.mem_range]

theorem senders_anti {n j j' : Nat} (es : List Event) (h : j ≤ j') : senders n es j' ⊆ senders n es j := by
  intro i hi
  rw [mem_senders] at hi ⊢
  omega

/-- The count of agreed messages, from the first one that is not agreed on. -/
theorem agreed_eq {n len k : Nat} {es : List Event} (hk : k ≤ len)
    (hmaj : ∀ j < k, n < 2 * (senders n es j).card) (hmin : 2 * (senders n es k).card ≤ n) :
    agreed n len es = k := by
  have hset : ((Finset.range len).filter fun j => n < 2 * (senders n es j).card) = Finset.range k := by
    ext j
    rw [Finset.mem_filter, Finset.mem_range, Finset.mem_range]
    constructor
    · rintro ⟨-, hj⟩
      by_contra hle
      have := Finset.card_le_card (senders_anti (n := n) es (Nat.le_of_not_lt hle))
      omega
    · intro hj
      exact ⟨by omega, hmaj j hj⟩
  rw [agreed, hset, Finset.card_range]

/-- The message sequence: egress messages with consecutive transaction ids from `x0` on. -/
def Consecutive (x0 : UInt32) (ms : List Rfpbuf) : Prop :=
  ∀ (j : Nat) (m : Rfpbuf), ms[j]? = some m → isEgress m = true ∧ m.xid.toNat = (x0.toNat + j) % 2 ^ 32

/-- All configured siblings have finished the handshake and are at the sequence number `x0`. -/
structure HandshakeDone (n : Nat) (x0 : UInt32) (c : State) : Prop where
  voterTypeConf_eq : c.voterTypeConf = .all
  numSibsConf_eq : c.numSibsConf = n
  nOspf6Siblings_eq : c.nOspf6Siblings = n
  length_eq : c.ospf6Siblings.length = n
  routing : ∀ sr ∈ c.ospf6Siblings, sr.state = .routing ∧ sr.currentEgressXid = x0 ∧ sr.msgsRcvdQueue = []

/-- The events are messages of the siblings, each of which sends a prefix of `ms`. -/
structure SendsPrefixes (n : Nat) (ms : List Rfpbuf) (es : List Event) : Prop where
  sends : ∀ e ∈ es, ∃ i m env, i < n ∧ isEgress m = true ∧ e = .recv (.ospf6 i) m env
  presented_prefix : ∀ i, presented i es <+: ms

/-- What the voter has done after the run is what one replica does that has come as far as a majority
of the siblings; a sibling that is further has the rest in its queue. -/
def RefinesReplica (n : Nat) (ms : List Rfpbuf) (c : State) (es : List Event) : Prop :=
  ∃ c', (machine.run c es).result = some c' ∧
    (∀ r < c.routers.length, forwardedTo r (machine.run c es).outs = ms.take (agreed n ms.length es)) ∧
    c'.ospf6Siblings.length = n ∧
    ∀ (i : Nat) (sr : SibRouter), c'.ospf6Siblings[i]? = some sr →
      sr.msgsRcvdQueue = (presented i es).drop (agreed n ms.length es)

/-! ### The simulation -/

/-- The tables after the events `es`, with `k` votes won. -/
structure Slots (n : Nat) (x0 : UInt32) (routers : List Router) (k : Nat) (es : List Event)
    (c : State) : Prop where
  voterTypeConf_eq : c.voterTypeConf = .all
  numSibsConf_eq : c.numSibsConf = n
  nOspf6Siblings_eq : c.nOspf6Siblings = n
  length_eq : c.ospf6Siblings.length = n
  routers_eq : c.routers = routers
  leader : ∀ l ∈ c.leaderSibling, ∃ i, l = .ospf6 i
  connected : ∀ (i : Nat) (sr : SibRouter), c.ospf6Siblings[i]? = some sr → sr.state ≠ .disconnected
  xid_eq : ∀ (i : Nat) (sr : SibRouter), c.ospf6Siblings[i]? = some sr →
    sr.currentEgressXid.toNat = x0.toNat + k
  queue_eq : ∀ (i : Nat) (sr : SibRouter), c.ospf6Siblings[i]? = some sr →
    sr.msgsRcvdQueue = (presented i es).drop k

/-- With the outputs `os` as well: the votes won are those that a majority has sent messages for, and
no other is due. -/
structure Tracks (n : Nat) (x0 : UInt32) (ms : List Rfpbuf) (routers : List Router) (k : Nat)
    (es : List Event) (os : List Output) (c : State) : Prop extends Slots n x0 routers k es c where
  majority : ∀ j < k, n < 2 * (senders n es j).card
  minority : 2 * (senders n es k).card ≤ n
  forwarded : ∀ r < routers.length, forwardedTo r os = ms.take k

theorem presented_snoc (j i : Nat) (es : List Event) {m : Rfpbuf} (env : Env) (hm : isEgress m = true) :
    presented j (es ++ [.recv (.ospf6 i) m env]) = presented j es ++ if i = j then [m] else [] := by
  rw [presented_append]
  by_cases hij : i = j <;> simp [presented, Event.egressAt, hij, hm]

section Slots

variable {n : Nat} {x0 : UInt32} {ms : List Rfpbuf} {routers : List Router} {k : Nat} {es : List Event}
  {c : State} {i : Nat} {sr sr' : SibRouter} {m : Rfpbuf} {env : Env}

/-- To take over the leader's sequence number changes nothing, for all are equal. -/
theorem Slots.egressSib_xid (h : Slots n x0 routers k es c) (hsr : c.ospf6Siblings[i]? = some sr)
    (hsib : egressSib c m sr = some sr') : sr'.currentEgressXid.toNat = x0.toNat + k := by
  rcases egressSib_cases hsib with rfl | ⟨-, rfl⟩
  · exact h.xid_eq i sr' hsr
  · show (if sr.isLeader then _ else _ : UInt32).toNat = _
    split_ifs
    · exact h.xid_eq i sr hsr
    · cases hl : leaderEgressXid c with
      | none => exact h.xid_eq i sr hsr
      | some x =>
          simp only [leaderEgressXid, Option.map_eq_some_iff, Option.bind_eq_some_iff] at hl
          obtain ⟨leader, ⟨l, hl, hleader⟩, rfl⟩ := hl
          obtain ⟨j, rfl⟩ := h.leader l hl
          exact h.xid_eq j leader hleader

/-- A sibling written back with the queue it should have. -/
theorem Slots.setSib (h : Slots n x0 routers k es c) (hsr : c.ospf6Siblings[i]? = some sr)
    (hm : isEgress m = true) {new : SibRouter} (hstate : new.state = sr.state)
    (hxid : new.currentEgressXid.toNat = x0.toNat + k)
    (hqueue : new.msgsRcvdQueue = (presented i es ++ [m]).drop k) :
    Slots n x0 routers k (es ++ [.recv (.ospf6 i) m env]) (c.setSib (.ospf6 i) new) := by
  have hslot : ∀ (j : Nat) (x : SibRouter), (c.setSib (.ospf6 i) new).ospf6Siblings[j]? = some x →
      (j = i ∧ x = new) ∨ (i ≠ j ∧ c.ospf6Siblings[j]? = some x) := by
    intro j x hx
    have := State.sib_setSib (k := .ospf6 i) hsr new (.ospf6 j)
    rw [State.sib_ospf6, hx] at this
    split_ifs at this with hij
    · cases hij
      exact Or.inl ⟨rfl, Option.some.inj this⟩
    · exact Or.inr ⟨fun hji => hij (by rw [hji]), this.symm⟩
  constructor
  · exact h.voterTypeConf_eq
  · exact h.numSibsConf_eq
  · exact h.nOspf6Siblings_eq
  · rw [State.length_ospf6Siblings_setSib]
    exact h.length_eq
  · exact h.routers_eq
  · exact h.leader
  · intro j x hx
    rcases hslot j x hx with ⟨rfl, rfl⟩ | ⟨-, hx⟩
    · rw [hstate]
      exact h.connected j sr hsr
    · exact h.connected j x hx
  · intro j x hx
    rcases hslot j x hx with ⟨rfl, rfl⟩ | ⟨-, hx⟩
    · exact hxid
    · exact h.xid_eq j x hx
  · intro j x hx
    rw [presented_snoc j i es env hm]
    rcases hslot j x hx with ⟨rfl, rfl⟩ | ⟨hij, hx⟩
    · rw [if_pos rfl]
      exact hqueue
    · rw [if_neg hij, List.append_nil]
      exact h.queue_eq j x hx

/-- A won vote takes one message off every queue and one step for every sequence number. -/
theorem Slots.voted (h : Slots n x0 routers k es c) (hlt : x0.toNat + k + 1 < 2 ^ 32) :
    Slots n x0 routers (k + 1) es c.voted := by
  have hslot : ∀ (j : Nat) (x : SibRouter), c.voted.ospf6Siblings[j]? = some x →
      ∃ old, c.ospf6Siblings[j]? = some old ∧ bumpEgressXid (popHead old) = x := by
    intro j x hx
    rw [← State.sib_ospf6, sib_voted] at hx
    exact Option.map_eq_some_iff.mp hx
  refine ⟨h.voterTypeConf_eq, h.numSibsConf_eq, h.nOspf6Siblings_eq, ?_, h.routers_eq, h.leader, ?_, ?_, ?_⟩
  · simp [State.voted, h.length_eq]
  · intro j x hx
    obtain ⟨old, hold, rfl⟩ := hslot j x hx
    exact h.connected j old hold
  · intro j x hx
    obtain ⟨old, hold, rfl⟩ := hslot j x hx
    have hxid := h.xid_eq j old hold
    show (old.currentEgressXid + 1).toNat = _
    rw [UInt32.toNat_add, hxid]
    exact Nat.mod_eq_of_lt hlt
  · intro j x hx
    obtain ⟨old, hold, rfl⟩ := hslot j x hx
    show old.msgsRcvdQueue.tail = _
    rw [h.queue_eq j old hold, List.tail_drop]

/-- The heads of the queues are the next message of the sequence, at those who have presented it. -/
theorem Slots.head_eq (h : Slots n x0 routers k es c) (hpre : ∀ i, presented i es <+: ms)
    (hsr : c.ospf6Siblings[i]? = some sr) :
    sr.msgsRcvdQueue.head? = if k < (presented i es).length then ms[k]? else none := by
  rw [h.queue_eq i sr hsr, List.head?_drop]
  split_ifs with hk
  · obtain ⟨t, rfl⟩ := hpre i
    rw [List.getElem?_append_left hk]
  · exact List.getElem?_eq_none (by omega)

theorem Slots.countP_votesFor (h : Slots n x0 routers k es c) (hpre : ∀ i, presented i es <+: ms)
    (hm : ms[k]? = some m) : c.ospf6Siblings.countP (votesFor m) = (senders n es k).card := by
  rw [← card_positions]
  congr 1
  ext j
  rw [mem_positions, mem_senders]
  constructor
  · rintro ⟨sr, hsr, hv⟩
    obtain ⟨hj, -⟩ := List.getElem?_eq_some_iff.mp hsr
    have hhead := (votesFor_iff.mp hv).2
    rw [h.head_eq hpre hsr] at hhead
    split_ifs at hhead with hk
    exact ⟨by rw [← h.length_eq]; exact hj, hk⟩
  · rintro ⟨hj, hk⟩
    rw [← h.length_eq] at hj
    have hsr := List.getElem?_eq_getElem hj
    refine ⟨_, hsr, votesFor_iff.mpr ⟨h.connected j _ hsr, ?_⟩⟩
    rw [h.head_eq hpre hsr, if_pos hk, hm]

/-- The vote is won exactly by a majority of senders of the next message. -/
theorem Slots.winner_iff (h : Slots n x0 routers k es c) (hpre : ∀ i, presented i es <+: ms)
    (hm : ms[k]? = some m) : winner c = some m ↔ n < 2 * (senders n es k).card := by
  have hhosts : numHosts c = n := by rw [numHosts_all h.voterTypeConf_eq, h.numSibsConf_eq]
  have hcount := h.countP_votesFor hpre hm
  have hmem : ∀ sr ∈ c.ospf6Siblings, ∃ j, c.ospf6Siblings[j]? = some sr := fun sr hsr =>
    List.mem_iff_getElem?.mp hsr
  constructor
  · intro hwin
    have hlt := (lt_countP_of_winner (fun sr hsr hd => by
      obtain ⟨j, hj⟩ := hmem sr hsr
      exact absurd hd (h.connected j sr hj)) hwin).1
    rw [hhosts, hcount] at hlt
    omega
  · intro hlt
    have hmaj : Majority c m := by
      rw [Majority, hhosts, hcount]
      omega
    refine (winner_iff_of_majority hmaj).mpr ⟨firstHead_of_forall (fun sr hsr a ha => ?_) ?_, by omega⟩
    · obtain ⟨j, hj⟩ := hmem sr hsr
      rw [h.head_eq hpre hj] at ha
      split_ifs at ha with hk
      · rw [hm] at ha
        exact (Option.some.inj ha).symm
      · cases ha
    · rw [hcount]
      omega

/-- Nothing but the next message can win. -/
theorem Slots.eq_of_winner (h : Slots n x0 routers k es c) (hpre : ∀ i, presented i es <+: ms)
    (hm : ms[k]? = some m) {a : Rfpbuf} (hwin : winner c = some a) : a = m := by
  obtain ⟨sr, hsr, ha⟩ := List.exists_of_findSome?_eq_some (firstHead_of_winner hwin)
  obtain ⟨j, hj⟩ := List.mem_iff_getElem?.mp hsr
  rw [h.head_eq hpre hj] at ha
  split_ifs at ha
  rw [hm] at ha
  exact (Option.some.inj ha).symm

end Slots

theorem le_msgRcvdLoop (l : List SibRouter) (i : Nat) : l.length + i ≤ msgRcvdLoop l i := by
  induction l, i using msgRcvdLoop.induct with
  | case1 i => simp [msgRcvdLoop]
  | case2 sr i h => simp [msgRcvdLoop, h]; omega
  | case3 sr i h => simp [msgRcvdLoop, h]; omega
  | case4 sr sr' rest i h ih => simp only [msgRcvdLoop, h, if_true, List.length_cons]; omega
  | case5 sr sr' rest i h ih => simp only [msgRcvdLoop, h, List.length_cons] at ih ⊢; simp; omega

/-- With all siblings there, `majority_have_msg_rcvd` lets every message through to the vote. -/
theorem Slots.readyToVote {n : Nat} {x0 : UInt32} {routers : List Router} {k : Nat} {es : List Event}
    {c : State} (h : Slots n x0 routers k es c) (hn : 0 < n) : readyToVote c = true := by
  have hloop := le_msgRcvdLoop c.ospf6Siblings 0
  have hlen := h.length_eq
  rw [Controller.readyToVote, Bool.and_eq_true]
  refine ⟨decide_eq_true (by rw [h.nOspf6Siblings_eq, h.numSibsConf_eq]), ?_⟩
  rw [majorityHaveMsgRcvd, numHosts_all h.voterTypeConf_eq, h.numSibsConf_eq]
  exact aboveHalf_of_lt (by omega) (by omega)

section Step

variable {n : Nat} {x0 : UInt32} {ms : List Rfpbuf} {routers : List Router} {k : Nat} {es : List Event}
  {os : List Output} {c : State} {i : Nat} {m : Rfpbuf} {env : Env}

/-- The votes won are of messages that somebody has presented. -/
theorem Tracks.le_length (h : Tracks n x0 ms routers k es os c) (hpre : ∀ i, presented i es <+: ms) :
    k ≤ ms.length := by
  cases k with
  | zero => exact Nat.zero_le _
  | succ k =>
      have hmaj := h.majority k (Nat.lt_succ_self k)
      obtain ⟨i, hi⟩ := Finset.card_pos.mp (by omega : 0 < (senders n es k).card)
      have := (hpre i).length_le
      rw [mem_senders] at hi
      omega

theorem senders_mono (n : Nat) (es : List Event) (e : Event) (j : Nat) :
    senders n es j ⊆ senders n (es ++ [e]) j := by
  intro i hi
  rw [mem_senders] at hi ⊢
  rw [presented_append, List.length_append]
  omega

/-- A message changes who has sent message number `j` only if it is that message. -/
theorem senders_snoc (hm : isEgress m = true) {j : Nat} (hj : j ≠ (presented i es).length) :
    senders n (es ++ [.recv (.ospf6 i) m env]) j = senders n es j := by
  ext l
  rw [mem_senders, mem_senders, presented_snoc l i es env hm]
  by_cases hil : i = l
  · subst hil
    rw [if_pos rfl, List.length_append, List.length_singleton]
    omega
  · rw [if_neg hil, List.append_nil]

/-- After a vote for message number `k` nobody has sent more than before of the one after it. -/
theorem senders_succ_snoc (n : Nat) (env : Env) (hm : isEgress m = true) (hk : (presented i es).length = k) :
    senders n (es ++ [.recv (.ospf6 i) m env]) (k + 1) ⊆ senders n es k := by
  rw [senders_snoc hm (by omega)]
  exact senders_anti es (Nat.le_succ k)

theorem exists_egressSib (c : State) (sr : SibRouter) (hm : isEgress m = true) :
    ∃ sr', egressSib c m sr = some sr' := by
  simp only [isEgress, Bool.or_eq_true, decide_eq_true_eq] at hm
  rcases hm with hm | hm
  · exact ⟨syncFirstEgress c sr, by rw [egressSib, hm]⟩
  · exact ⟨sr, by rw [egressSib, hm]⟩

/-- The state a message leaves when no vote is won. -/
theorem Tracks.of_slots (h : Tracks n x0 ms routers k es os c) {e : Event} {os' : List Output} {c' : State}
    (hslots : Slots n x0 routers k (es ++ [e]) c') (hmin : 2 * (senders n (es ++ [e]) k).card ≤ n)
    (hos : ∀ r, forwardedTo r os' = []) : Tracks n x0 ms routers k (es ++ [e]) (os ++ os') c' where
  toSlots := hslots
  majority j hj := by
    have := h.majority j hj
    have := Finset.card_le_card (senders_mono n es e j)
    omega
  minority := hmin
  forwarded r hr := by rw [forwardedTo_append, hos, List.append_nil, h.forwarded r hr]

/-- A vote that is due: the sender has come as far as the votes have. -/
theorem Tracks.vote (h : Tracks n x0 ms routers k es os c) {c' : State} (hlt : x0.toNat + k + 1 < 2 ^ 32)
    (hn : (presented i es).length = k) (hm : isEgress m = true) (hnext : ms[k]? = some m)
    (hs : env.Survives routers.length) (hi : i < n)
    (hpre : ∀ j, presented j (es ++ [.recv (.ospf6 i) m env]) <+: ms)
    (hslots : Slots n x0 routers k (es ++ [.recv (.ospf6 i) m env]) c') :
    ∃ k' c'', (voteMajority env c').result = some c'' ∧
      Tracks n x0 ms routers k' (es ++ [.recv (.ospf6 i) m env]) (os ++ (voteMajority env c').outs) c'' := by
  by_cases hmaj : n < 2 * (senders n (es ++ [.recv (.ospf6 i) m env]) k).card
  · have hwin := (hslots.winner_iff hpre hnext).mpr hmaj
    have hs' : env.Survives c'.routers.length := hslots.routers_eq.symm ▸ hs
    refine ⟨k + 1, c'.voted, result_of_winner hwin hs', ⟨hslots.voted hlt, fun j hj => ?_, ?_, fun r hr => ?_⟩⟩
    · rcases Nat.eq_or_lt_of_le (Nat.le_of_lt_succ hj) with rfl | hjk
      · exact hmaj
      · have := h.majority j hjk
        have := Finset.card_le_card (senders_mono n es (.recv (.ospf6 i) m env) j)
        omega
    · have := Finset.card_le_card (senders_succ_snoc n env hm hn)
      have := h.minority
      omega
    · rw [forwardedTo_append, h.forwarded r hr, forwardedTo_of_winner hwin, if_pos, List.take_add_one, hnext]
      · rfl
      · rw [hslots.routers_eq]
        exact ⟨hr, fun j hj => hs j (by omega)⟩
  · have hnone : winner c' = none := by
      cases hw : winner c' with
      | none => rfl
      | some a =>
          rw [hslots.eq_of_winner hpre hnext hw] at hw
          exact absurd ((hslots.winner_iff hpre hnext).mp hw) hmaj
    -- the message that has just come is there to vote on
    have hsr := List.getElem?_eq_getElem (hslots.length_eq ▸ hi : i < c'.ospf6Siblings.length)
    have hq := hslots.queue_eq i _ hsr
    refine ⟨k, c', result_of_winner_eq_none hnone (List.mem_of_getElem? hsr) ?_,
      h.of_slots hslots (by omega) fun r => forwardedTo_of_winner_eq_none hnone r⟩
    rw [hq, presented_snoc i i es env hm, if_pos rfl, ← hn, List.drop_left]
    simp

/-- The step of the simulation. The sibling that sends has come as far as the votes, further, or less
far; only in the first case is there a vote. -/
theorem Tracks.step (h : Tracks n x0 ms routers k es os c) (hx : x0.toNat + ms.length < 2 ^ 32)
    (hms : Consecutive x0 ms) (hi : i < n) (hm : isEgress m = true) (hs : env.Survives routers.length)
    (hpre : ∀ j, presented j (es ++ [.recv (.ospf6 i) m env]) <+: ms) :
    ∃ k' c', (machine.step c (.recv (.ospf6 i) m env)).result = some c' ∧
      Tracks n x0 ms routers k' (es ++ [.recv (.ospf6 i) m env])
        (os ++ (machine.step c (.recv (.ospf6 i) m env)).outs) c' := by
  obtain ⟨sr, hsr⟩ : ∃ sr, c.ospf6Siblings[i]? = some sr := ⟨_, List.getElem?_eq_getElem (h.length_eq ▸ hi)⟩
  obtain ⟨sr', hsib⟩ := exists_egressSib c sr hm
  have hstep : machine.step c (.recv (.ospf6 i) m env) = egressMsg env (.ospf6 i) m sr' c := by
    simp only [machine, Controller.step, State.sib_ospf6, hsr, h.connected i sr hsr, if_false]
    exact sibRouterProcessPacket_of_egressSib hsr hsib
  have hnext : ms[(presented i es).length]? = some m := by
    obtain ⟨t, ht⟩ := hpre i
    rw [presented_snoc i i es env hm, if_pos rfl] at ht
    rw [← ht, List.append_assoc, List.getElem?_append_right (Nat.le_refl _), Nat.sub_self]
    rfl
  obtain ⟨hlen, -⟩ := List.getElem?_eq_some_iff.mp hnext
  have hxid : m.xid.toNat = x0.toNat + (presented i es).length := by
    rw [(hms _ m hnext).2]
    exact Nat.mod_eq_of_lt (by omega)
  have hxid' := h.egressSib_xid hsr hsib
  have hstate := egressSib_state hsib
  have hqueue : sr'.msgsRcvdQueue = (presented i es).drop k := by
    rw [egressSib_queue hsib, h.queue_eq i sr hsr]
  have happend : k ≤ (presented i es).length → Slots n x0 routers k (es ++ [.recv (.ospf6 i) m env])
      (c.setSib (.ospf6 i) (appendMsgToRcvdQueue sr' m)) := fun hk =>
    h.setSib hsr hm hstate hxid' (by
      rw [List.drop_append_of_le_length hk, ← hqueue]
      rfl)
  rw [hstep, egressMsg]
  rcases Nat.lt_trichotomy (presented i es).length k with hlt | heq | hgt
  · have hne : m.xid ≠ sr'.currentEgressXid := fun heq => by
      have := congrArg UInt32.toNat heq
      omega
    have hnlt : ¬ sr'.currentEgressXid < m.xid := fun hlt' => by
      have := UInt32.lt_iff_toNat_lt.mp hlt'
      omega
    rw [if_neg hne, if_neg hnlt]
    refine ⟨k, _, rfl, h.of_slots (h.setSib hsr hm hstate hxid' ?_) ?_ fun r => rfl⟩
    · rw [hqueue, List.drop_of_length_le (by omega), List.drop_of_length_le (by simp; omega)]
    · rw [senders_snoc hm (by omega)]
      exact h.minority
  · have hready := (happend (Nat.le_of_eq heq.symm)).readyToVote (by omega)
    have hmatch : m.xid = sr'.currentEgressXid := UInt32.toNat_inj.mp (by omega)
    rw [if_pos hmatch, if_pos hready]
    exact h.vote (by omega) heq hm (heq ▸ hnext) hs hi hpre (happend (Nat.le_of_eq heq.symm))
  · have hne : m.xid ≠ sr'.currentEgressXid := fun heq => by
      have := congrArg UInt32.toNat heq
      omega
    rw [if_neg hne, if_pos (UInt32.lt_iff_toNat_lt.mpr (by omega))]
    refine ⟨k, _, rfl, h.of_slots (happend (Nat.le_of_lt hgt)) ?_ fun r => rfl⟩
    rw [senders_snoc hm (by omega)]
    exact h.minority

end Step

theorem tracks_of_handshakeDone {n : Nat} {x0 : UInt32} {ms : List Rfpbuf} {c : State}
    (hc : HandshakeDone n x0 c) (hleader : ∀ l ∈ c.leaderSibling, ∃ i, l = .ospf6 i) :
    Tracks n x0 ms c.routers 0 [] [] c where
  voterTypeConf_eq := hc.voterTypeConf_eq
  numSibsConf_eq := hc.numSibsConf_eq
  nOspf6Siblings_eq := hc.nOspf6Siblings_eq
  length_eq := hc.length_eq
  routers_eq := rfl
  leader := hleader
  connected i sr hsr := by
    rw [(hc.routing sr (List.mem_of_getElem? hsr)).1]
    nofun
  xid_eq i sr hsr := by rw [(hc.routing sr (List.mem_of_getElem? hsr)).2.1, Nat.add_zero]
  queue_eq i sr hsr := (hc.routing sr (List.mem_of_getElem? hsr)).2.2
  majority := nofun
  minority := by simp [senders, presented]
  forwarded _ _ := by rw [List.take_zero]; rfl

theorem SendsPrefixes.of_snoc {n : Nat} {ms : List Rfpbuf} {es : List Event} {e : Event}
    (h : SendsPrefixes n ms (es ++ [e])) : SendsPrefixes n ms es := by
  refine ⟨fun e' he' => h.sends e' (List.mem_append_left _ he'), fun i => ?_⟩
  have := h.presented_prefix i
  rw [presented_append] at this
  exact (List.prefix_append _ _).trans this

/-- The run of the simulation, by induction on the events from the last one. -/
theorem exists_tracks_of_run {n : Nat} {x0 : UInt32} {ms : List Rfpbuf} {c : State} {es : List Event}
    (hc : HandshakeDone n x0 c) (hms : Consecutive x0 ms) (hes : SendsPrefixes n ms es)
    (hleader : ∀ l ∈ c.leaderSibling, ∃ i, l = .ospf6 i) (hx : x0.toNat + ms.length < 2 ^ 32)
    (hs : ∀ k m env, Event.recv k m env ∈ es → env.Survives c.routers.length) :
    ∃ k c', (machine.run c es).result = some c' ∧
      Tracks n x0 ms c.routers k es (machine.run c es).outs c' := by
  induction es using List.reverseRecOn with
  | nil => exact ⟨0, c, rfl, tracks_of_handshakeDone hc hleader⟩
  | append_singleton es e ih =>
      obtain ⟨k, c', hres, htracks⟩ := ih hes.of_snoc fun k m env he => hs k m env (List.mem_append_left _ he)
      obtain ⟨i, m, env, hi, hm, rfl⟩ := hes.sends e (List.mem_append_right _ List.mem_cons_self)
      rw [machine.run_snoc, Exec.bind_of_some _ hres]
      exact htracks.step hx hms hi hm (hs _ m env (List.mem_append_right _ List.mem_cons_self))
        hes.presented_prefix

/-- The siblings in step with one replica: as long as the buffer lives through the loop over the
routers, the leader is an OSPF6 sibling if there is one, and the transaction ids do not wrap
around. -/
theorem refinesReplica_of_run {n : Nat} {x0 : UInt32} {ms : List Rfpbuf} {c : State} {es : List Event}
    (hc : HandshakeDone n x0 c) (hms : Consecutive x0 ms) (hes : SendsPrefixes n ms es)
    (hleader : ∀ l ∈ c.leaderSibling, ∃ i, l = .ospf6 i) (hx : x0.toNat + ms.length < 2 ^ 32)
    (hs : ∀ k m env, Event.recv k m env ∈ es → env.Survives c.routers.length) :
    RefinesReplica n ms c es := by
  obtain ⟨k, c', hres, h⟩ := exists_tracks_of_run hc hms hes hleader hx hs
  have hk : agreed n ms.length es = k :=
    agreed_eq (h.le_length hes.presented_prefix) h.majority h.minority
  refine ⟨c', hres, fun r hr => ?_, h.length_eq, fun i sr hsr => ?_⟩
  · rw [hk]
    exact h.forwarded r hr
  · rw [hk]
    exact h.queue_eq i sr hsr

instance (n : Nat) (x0 : UInt32) (c : State) : Decidable (HandshakeDone n x0 c) :=
  decidable_of_iff (c.voterTypeConf = .all ∧ c.numSibsConf = n ∧ c.nOspf6Siblings = n ∧
      c.ospf6Siblings.length = n ∧
      ∀ sr ∈ c.ospf6Siblings, sr.state = .routing ∧ sr.currentEgressXid = x0 ∧ sr.msgsRcvdQueue = [])
    ⟨fun ⟨h1, h2, h3, h4, h5⟩ => ⟨h1, h2, h3, h4, h5⟩, fun ⟨h1, h2, h3, h4, h5⟩ => ⟨h1, h2, h3, h4, h5⟩⟩

/-- Three siblings send the messages 3 and 4, the second one ahead of the others. -/
theorem refinesReplica_of_three : ∃ c,
    (machine.run (State.sibRouterInit [⟨[]⟩] [] 3 .all) (connectAll 3)).result = some c ∧
    RefinesReplica 3 [.routeflowAllocXid .forwardOspf6 3 [], .routeflowAllocXid .forwardOspf6 4 []] c
      [sendOspf6 1 3 [], sendOspf6 1 4 [], sendOspf6 0 3 []] := by
  obtain ⟨c, hc, hdone, hleader, hrouters⟩ := exists_of_any
    (p := fun c => HandshakeDone 3 3 c ∧ c.leaderSibling = none ∧ c.routers.length = 1)
    (o := (machine.run (State.sibRouterInit [⟨[]⟩] [] 3 .all) (connectAll 3)).result) (by decide)
  refine ⟨c, hc, refinesReplica_of_run hdone (fun j m hm => ?_) ⟨fun e he => ?_, fun i => ?_⟩
    (by simp [hleader]) (by decide) fun _ _ _ _ => ?_⟩
  · rcases j with _ | _ | j
    · cases hm
      decide
    · cases hm
      decide
    · cases hm
  · simp only [List.mem_cons, List.not_mem_nil, or_false] at he
    rcases he with rfl | rfl | rfl
    · exact ⟨1, _, _, by decide, by decide, rfl⟩
    · exact ⟨1, _, _, by decide, by decide, rfl⟩
    · exact ⟨0, _, _, by decide, by decide, rfl⟩
  · rcases i with _ | _ | i
    · decide
    · decide
    · simp [presented, Event.egressAt, sendOspf6]
  · rw [hrouters]
    intro r hr
    cases hr

/-- With a second router that has connected after the handshake, the first vote does not return. -/
theorem not_refinesReplica_of_two_routers : ∃ c,
    (machine.run (State.sibRouterInit [⟨[]⟩] [] 1 .all)
      (connectAll 1 ++ [.routerSide [⟨[]⟩, ⟨[]⟩] []])).result = some c ∧ HandshakeDone 1 3 c ∧
    ¬ RefinesReplica 1 [.routeflowAllocXid .forwardOspf6 3 []] c [sendOspf6 0 3 []] := by
  obtain ⟨c, hc, hdone, hnone⟩ := exists_of_any
    (p := fun c => HandshakeDone 1 3 c ∧ (machine.run c [sendOspf6 0 3 []]).result = none)
    (o := (machine.run (State.sibRouterInit [⟨[]⟩] [] 1 .all)
      (connectAll 1 ++ [.routerSide [⟨[]⟩, ⟨[]⟩] []])).result) (by decide)
  refine ⟨c, hc, hdone, fun ⟨c', hres, _⟩ => ?_⟩
  rw [hnone] at hres
  cases hres

end Harry.Controller
