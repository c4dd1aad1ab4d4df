import Harry.ControllerStep

/-! The three tables of the controller, which are arrays of a fixed size with a count of their entries. Beside what an
event does to the entries stands here which entries it uses: every index with the count as it is then. The loops over a
whole table are in bounds as long as the counts are; an accept takes the next index without a look at the size of the
array, and the search of `vote_majority` reads a queue before it compares the index with the count. -/

open Harry.Base Harry.Rfp

namespace Harry.Controller

inductive Table where
  | routers | ospf6Siblings | bgpSiblings
  deriving DecidableEq, Repr

def maxRouters : Nat := 16

def Table.size : Table → Nat
  | .routers => maxRouters
  | .ospf6Siblings => maxOspf6Siblings
  | .bgpSiblings => maxBgpSiblings

/-- A use of an entry, with the number of entries that are counted then. -/
structure Use where
  table : Table
  index : Nat
  count : Nat
  deriving DecidableEq, Repr

def Use.InBounds (u : Use) : Prop := u.index < u.table.size ∧ u.index < u.count

instance (u : Use) : Decidable u.InBounds := inferInstanceAs (Decidable (u.index < u.table.size ∧ u.index < u.count))

/-- Uses at some indices. -/
def usesAt (t : Table) (count : Nat) (is : List Nat) : List Use := is.map fun i => ⟨t, i, count⟩

/-- A loop over all entries. -/
def usesAll (t : Table) (count : Nat) : List Use := usesAt t count (List.range count)

section Uses

variable (c : State)

/-- `sib_router_send_leader_elect`, where `state_transition` calls it. -/
def stateTransitionUses (sr : SibRouter) (state : SibRouterState) : List Use :=
  if (c.addRouting (routingDelta sr.state state)).nOspf6SiblingsRouting = c.numSibsConf then
    usesAll .ospf6Siblings c.nOspf6Siblings
  else []

/-- `sib_listener_accept` on the port of the OSPF6 siblings. -/
def acceptOspf6Uses (raw : SibRouter) : List Use :=
  match c.ospf6Siblings.findIdx? (·.state = .disconnected) with
  | some i => usesAt .ospf6Siblings c.nOspf6Siblings (List.range (i + 1) ++ [i]) ++
      (c.ospf6Siblings[i]?).elim [] (stateTransitionUses c · .connecting)
  | none => usesAll .ospf6Siblings c.nOspf6Siblings ++
      ⟨.ospf6Siblings, c.nOspf6Siblings, c.nOspf6Siblings + 1⟩ ::
        stateTransitionUses { c with nOspf6Siblings := c.nOspf6Siblings + 1 } raw .connecting

/-- `sib_listener_accept` on the port of the BGP siblings. -/
def acceptBgpUses (raw : SibRouter) : List Use :=
  ⟨.bgpSiblings, c.nBgpSiblings, c.nBgpSiblings + 1⟩ :: stateTransitionUses c raw .connecting

/-- A handshake request; two of the replies go over the routers. -/
def handshakeUses (xid : UInt32) (expects : SibRouterState → Bool) (reply : List Use)
    (next : SibRouterState → Option SibRouterState) (sr : SibRouter) : List Use :=
  if xid = sr.currentEgressXid ∧ expects sr.state then
    reply ++ (next sr.state).elim [] (stateTransitionUses c (bumpEgressXid sr))
  else []

/-- `num_waiting_on_first_egress_msg`, where the number of hosts is computed. -/
def numHostsUses : List Use :=
  match c.voterTypeConf with
  | .all => []
  | .any => usesAll .ospf6Siblings c.nOspf6Siblings

/-- The indices in the loop of `majority_have_msg_rcvd`. -/
def msgRcvdIndices : List SibRouter → Nat → List Nat
  | [], _ => []
  | [_], i => [i]
  | sr :: sr' :: rest, i =>
    i :: if hasMsgRcvd sr then msgRcvdIndices rest (i + 2) else msgRcvdIndices (sr' :: rest) (i + 1)

/-- `majority_have_msg_rcvd`, and `readyToVote` before it. -/
def readyUses : List Use :=
  if c.nOspf6Siblings = c.numSibsConf then
    numHostsUses c ++ usesAt .ospf6Siblings c.nOspf6Siblings (msgRcvdIndices c.ospf6Siblings 0)
  else []

/-- Where the search for a first candidate stops: at the first queue that is not empty, or behind the last one. -/
def searchEnd : Nat := c.ospf6Siblings.findIdx fun sr => !sr.msgsRcvdQueue.isEmpty

/-- `vote_majority`, the listing of the queues at its beginning included. The queue at the index where the search stops
has been read, and is read again for the candidate. -/
def voteUses : List Use :=
  usesAll .ospf6Siblings c.nOspf6Siblings ++
    usesAt .ospf6Siblings c.nOspf6Siblings (List.range (searchEnd c + 1) ++ [searchEnd c]) ++
    usesAt .ospf6Siblings c.nOspf6Siblings ((List.range c.nOspf6Siblings).filter (searchEnd c < ·)) ++
    numHostsUses c ++ numHostsUses c ++
    if (winner c).isSome then
      usesAll .ospf6Siblings c.nOspf6Siblings ++ usesAll .routers c.routers.length ++
        usesAll .ospf6Siblings c.nOspf6Siblings
    else []

/-- An egress message. -/
def egressUses (k : SibRef) (msg : Rfpbuf) (sr : SibRouter) : List Use :=
  if msg.xid = sr.currentEgressXid then
    readyUses (c.setSib k (appendMsgToRcvdQueue sr msg)) ++
      if readyToVote (c.setSib k (appendMsgToRcvdQueue sr msg)) then voteUses (c.setSib k (appendMsgToRcvdQueue sr msg))
      else []
  else []

/-- `sib_router_process_packet`. -/
def processPacketUses (k : SibRef) (msg : Rfpbuf) (sr : SibRouter) : List Use :=
  match msg.type with
  | some .featuresRequest =>
    handshakeUses c msg.xid featuresExpects (usesAll .routers c.routers.length) featuresNext sr
  | some .ifAddressReq => handshakeUses c msg.xid ifAddressExpects (usesAll .routers c.routers.length) ifAddressNext sr
  | some .redistributeRequest => handshakeUses c msg.xid redistributeExpects [] redistributeNext sr
  | some .ipv6RouteSetRequest => egressUses c k msg sr
  | some .forwardOspf6 => egressUses c k msg (syncFirstEgress c sr)
  | some .forwardBgp => usesAll .routers c.routers.length
  | _ => []

end Uses

/-- What can happen to the tables: the events of the controller, a router that connects, and a BGP packet of a router,
whose hand-over fails for some of the siblings. -/
inductive TableEvent where
  | controller (e : Event)
  | acceptRouter
  | forwardBgp (fails : Nat → Bool)

/-- The entries an event uses. -/
def uses (c : State) : TableEvent → List Use
  | .controller (.acceptOspf6 raw) => acceptOspf6Uses c raw
  | .controller (.acceptBgp raw) => acceptBgpUses c raw
  | .controller (.start k) => (c.sib k).elim [] fun sr =>
      if sr.state = .connecting then stateTransitionUses c sr .connected else []
  | .controller (.recv k msg _) => (c.sib k).elim [] fun sr =>
      if sr.state = .disconnected then [] else processPacketUses c k msg sr
  | .controller (.destroy k) => (c.sib k).elim [] fun sr =>
      if sr.state = .disconnected then [] else stateTransitionUses c sr .disconnected
  | .controller (.ingress _ _) => usesAll .ospf6Siblings c.nOspf6Siblings
  | .controller (.routerSide _ _) => []
  | .acceptRouter => [⟨.routers, c.routers.length, c.routers.length + 1⟩]
  -- the note about a failed hand-over takes its name from the other table
  | .forwardBgp fails => usesAll .bgpSiblings c.nBgpSiblings ++
      usesAt .ospf6Siblings c.nOspf6Siblings ((List.range c.nBgpSiblings).filter fails)

/-- The messages of the routers change their ports and the routes, not how many routers there are. -/
def tableStep (c : State) : TableEvent → Exec Output State
  | .controller (.routerSide routers rib) =>
    if routers.length = c.routers.length then machine.step c (.routerSide routers rib) else pure c
  | .controller e => machine.step c e
  | .acceptRouter => do
    Exec.require (c.routers.length < maxRouters)
    pure { c with routers := c.routers ++ [⟨[]⟩] }
  | .forwardBgp _ => pure c

def tableMachine : Machine State TableEvent Output := ⟨tableStep⟩

/-- Every entry that an event uses is there, and the search of a vote stops at a message. -/
structure StaysInBounds (c : State) (e : TableEvent) : Prop where
  uses : ∀ u ∈ uses c e, u.InBounds
  search : ∀ e' c' env, e = .controller e' → voteOf c e' = some (c', env) →
    ∃ sr, c'.ospf6Siblings[searchEnd c']? = some sr ∧ sr.msgsRcvdQueue ≠ []

/-- A vote finds a message in the queue of some OSPF6 sibling. -/
def SomeQueued (c : State) : Prop := ∃ sr ∈ c.ospf6Siblings, sr.msgsRcvdQueue ≠ []

/-- There is room for a new entry, a vote has a message of an OSPF6 sibling to begin with, and the hand-over of a BGP
packet fails only for indices of OSPF6 siblings. -/
def HasRoom (c : State) : TableEvent → Prop
  | .controller (.acceptOspf6 _) => (∀ sr ∈ c.ospf6Siblings, sr.state ≠ .disconnected) →
      c.nOspf6Siblings < maxOspf6Siblings
  | .controller (.acceptBgp _) => c.nBgpSiblings < maxBgpSiblings
  | .controller (.recv k msg env) => ∀ p ∈ voteOf c (.recv k msg env), SomeQueued p.1
  | .controller (.start _) | .controller (.destroy _) | .controller (.ingress _ _)
  | .controller (.routerSide _ _) => True
  | .acceptRouter => c.routers.length < maxRouters
  | .forwardBgp fails => ∀ i < c.nBgpSiblings, fails i = true → i < c.nOspf6Siblings

/-- The counts are within the arrays. -/
structure TablesFilled (c : State) : Prop where
  ok : c.Ok
  ospf6 : c.nOspf6Siblings ≤ maxOspf6Siblings
  bgp : c.nBgpSiblings ≤ maxBgpSiblings
  routers : c.routers.length ≤ maxRouters

/-! ### The uses of one event -/

section OneEvent

variable {c : State} {u : Use} {t : Table} {n : Nat} {is : List Nat}

theorem mem_usesAt : u ∈ usesAt t n is ↔ ∃ i ∈ is, u = ⟨t, i, n⟩ := by
  simp only [usesAt, List.mem_map, eq_comm]

theorem inBounds_usesAt (hn : n ≤ t.size) (h : ∀ i ∈ is, i < n) : ∀ u ∈ usesAt t n is, u.InBounds := by
  intro u hu
  obtain ⟨i, hi, rfl⟩ := mem_usesAt.mp hu
  exact ⟨Nat.lt_of_lt_of_le (h i hi) hn, h i hi⟩

theorem inBounds_usesAll (hn : n ≤ t.size) : ∀ u ∈ usesAll t n, u.InBounds :=
  inBounds_usesAt hn fun _ hi => List.mem_range.mp hi

theorem inBounds_append {us vs : List Use} (h : ∀ u ∈ us, u.InBounds) (h' : ∀ u ∈ vs, u.InBounds) :
    ∀ u ∈ us ++ vs, u.InBounds := by
  intro u hu
  rcases List.mem_append.mp hu with hu | hu
  · exact h u hu
  · exact h' u hu

theorem inBounds_stateTransition (h : c.nOspf6Siblings ≤ maxOspf6Siblings) (sr : SibRouter) (state : SibRouterState) :
    ∀ u ∈ stateTransitionUses c sr state, u.InBounds := by
  unfold stateTransitionUses
  split
  · exact inBounds_usesAll h
  · exact fun u hu => absurd hu List.not_mem_nil

theorem inBounds_numHosts (h : c.nOspf6Siblings ≤ maxOspf6Siblings) : ∀ u ∈ numHostsUses c, u.InBounds := by
  unfold numHostsUses
  split
  · exact fun u hu => absurd hu List.not_mem_nil
  · exact inBounds_usesAll h

/-- The loop of `majority_have_msg_rcvd` stays in the table, although it steps over entries. -/
theorem msgRcvdIndices_lt (l : List SibRouter) (i : Nat) : ∀ j ∈ msgRcvdIndices l i, j < i + l.length := by
  fun_induction msgRcvdIndices l i with
  | case1 i => exact fun j hj => absurd hj List.not_mem_nil
  | case2 sr i =>
      intro j hj
      rw [List.mem_singleton.mp hj]
      exact Nat.lt_succ_self i
  | case3 sr sr' rest i ih ih' =>
      intro j hj
      have hskip := ih j
      have hnext := ih' j
      simp only [List.length_cons] at hnext ⊢
      rcases List.mem_cons.mp hj with rfl | hj
      · omega
      · split at hj
        · have := hskip hj
          omega
        · have := hnext hj
          omega

theorem inBounds_ready (h : TablesFilled c) : ∀ u ∈ readyUses c, u.InBounds := by
  unfold readyUses
  split
  · refine inBounds_append (inBounds_numHosts h.ospf6) (inBounds_usesAt h.ospf6 fun j hj => ?_)
    have := msgRcvdIndices_lt c.ospf6Siblings 0 j hj
    rwa [Nat.zero_add, h.ok.length_eq] at this
  · exact fun u hu => absurd hu List.not_mem_nil

theorem searchEnd_lt_iff : searchEnd c < c.ospf6Siblings.length ↔ SomeQueued c := by
  rw [searchEnd, List.findIdx_lt_length]
  simp [SomeQueued]

/-- The search stops in the table exactly when there is a message. -/
theorem inBounds_vote_iff (h : TablesFilled c) : (∀ u ∈ voteUses c, u.InBounds) ↔ SomeQueued c := by
  rw [← searchEnd_lt_iff, h.ok.length_eq]
  constructor
  · intro hall
    have hmem : (⟨.ospf6Siblings, searchEnd c, c.nOspf6Siblings⟩ : Use) ∈ voteUses c := by
      simp only [voteUses, List.mem_append]
      exact Or.inl (Or.inl (Or.inl (Or.inl (Or.inr (mem_usesAt.mpr ⟨searchEnd c, by simp, rfl⟩)))))
    exact (hall _ hmem).2
  · intro hlt
    have hall := inBounds_usesAll (t := .ospf6Siblings) h.ospf6
    refine inBounds_append (inBounds_append (inBounds_append (inBounds_append (inBounds_append hall
      (inBounds_usesAt h.ospf6 fun i hi => ?_)) (inBounds_usesAt h.ospf6 fun i hi => ?_))
      (inBounds_numHosts h.ospf6)) (inBounds_numHosts h.ospf6)) ?_
    · simp only [List.mem_append, List.mem_range, List.mem_singleton] at hi
      omega
    · exact List.mem_range.mp (List.mem_filter.mp hi).1
    · split
      · exact inBounds_append (inBounds_append hall (inBounds_usesAll h.routers)) hall
      · exact fun u hu => absurd hu List.not_mem_nil

theorem inBounds_handshake {xid : UInt32} {expects : SibRouterState → Bool} {reply : List Use}
    {next : SibRouterState → Option SibRouterState} {sr : SibRouter} (h : TablesFilled c)
    (hreply : ∀ u ∈ reply, u.InBounds) : ∀ u ∈ handshakeUses c xid expects reply next sr, u.InBounds := by
  unfold handshakeUses
  split
  · refine inBounds_append hreply ?_
    cases next sr.state with
    | none => exact fun u hu => absurd hu List.not_mem_nil
    | some state => exact inBounds_stateTransition h.ospf6 _ _
  · exact fun u hu => absurd hu List.not_mem_nil

variable {k : SibRef} {msg : Rfpbuf} {sr : SibRouter} {env : Env} {e : TableEvent}

theorem TablesFilled.queued (h : TablesFilled c) {sr' : SibRouter} (hsr : c.sib k = some sr)
    (hstate : sr.state ≠ .disconnected) (hsib : egressSib c msg sr = some sr') (hxid : msg.xid = sr'.currentEgressXid) :
    TablesFilled (c.setSib k (appendMsgToRcvdQueue sr' msg)) := by
  have hhandled : Handled k msg sr c (c.setSib k (appendMsgToRcvdQueue sr' msg)) :=
    .queued hsib (hxid ▸ UInt32.le_refl _)
  have hstep : Stepped c (.recv k msg ⟨fun _ => true, 0⟩) (c.setSib k (appendMsgToRcvdQueue sr' msg)) :=
    .handled hsr hstate hhandled
  refine ⟨h.ok.stepped hstep, ?_, ?_, ?_⟩
  · rw [State.setSib_nOspf6Siblings]
    exact h.ospf6
  · rw [State.setSib_nBgpSiblings]
    exact h.bgp
  · rw [State.setSib_routers]
    exact h.routers

/-- A message is safe exactly if the vote it may lead to is. -/
theorem inBounds_egress_iff (h : TablesFilled c) {sr' : SibRouter} (hsr : c.sib k = some sr)
    (hstate : sr.state ≠ .disconnected) (hsib : egressSib c msg sr = some sr') :
    (∀ u ∈ egressUses c k msg sr', u.InBounds) ↔ ∀ p ∈ voteOf c (.recv k msg env), SomeQueued p.1 := by
  have hvote : ∀ c', voteOf c (.recv k msg env) = some (c', env) ↔ msg.xid = sr'.currentEgressXid ∧
      readyToVote (c.setSib k (appendMsgToRcvdQueue sr' msg)) = true ∧
      c' = c.setSib k (appendMsgToRcvdQueue sr' msg) := by
    intro c'
    simp only [voteOf, hsr, Option.any_some, hstate, ne_eq, not_false_eq_true, decide_true, if_true,
      Option.map_eq_some_iff, Prod.mk.injEq, and_true, exists_eq_right, voteEntry_eq_some]
    constructor
    · rintro ⟨x, x', hx, hx', hxid, hready, rfl⟩
      cases hx
      cases hsib.symm.trans hx'
      exact ⟨hxid, hready, rfl⟩
    · rintro ⟨hxid, hready, rfl⟩
      exact ⟨sr, sr', rfl, hsib, hxid, hready, rfl⟩
  have hsnd : ∀ p ∈ voteOf c (.recv k msg env), p.2 = env := by
    intro p hp
    simp only [voteOf, Option.mem_def, Option.ite_none_right_eq_some, Option.map_eq_some_iff] at hp
    obtain ⟨-, c1, -, rfl⟩ := hp
    rfl
  unfold egressUses
  by_cases hxid : msg.xid = sr'.currentEgressXid
  · have hcounted := h.queued hsr hstate hsib hxid
    rw [if_pos hxid]
    by_cases hready : readyToVote (c.setSib k (appendMsgToRcvdQueue sr' msg)) = true
    · rw [if_pos hready]
      have hin := inBounds_vote_iff hcounted
      constructor
      · rintro hall ⟨c', env'⟩ hp
        cases hsnd _ hp
        obtain ⟨-, -, rfl⟩ := (hvote c').mp hp
        exact hin.mp fun u hu => hall u (List.mem_append_right _ hu)
      · intro hall
        exact inBounds_append (inBounds_ready hcounted) (hin.mpr (hall _ ((hvote _).mpr ⟨hxid, hready, rfl⟩)))
    · rw [if_neg hready, List.append_nil]
      refine iff_of_true (inBounds_ready hcounted) ?_
      rintro ⟨c', env'⟩ hp
      cases hsnd _ hp
      exact absurd ((hvote c').mp hp).2.1 hready
  · rw [if_neg hxid]
    refine iff_of_true (fun u hu => absurd hu List.not_mem_nil) ?_
    rintro ⟨c', env'⟩ hp
    cases hsnd _ hp
    exact absurd ((hvote c').mp hp).1 hxid

theorem inBounds_packet_iff (h : TablesFilled c) (hsr : c.sib k = some sr) (hstate : sr.state ≠ .disconnected) :
    (∀ u ∈ processPacketUses c k msg sr, u.InBounds) ↔ ∀ p ∈ voteOf c (.recv k msg env), SomeQueued p.1 := by
  cases hsib : egressSib c msg sr with
  | some sr' =>
      rw [← inBounds_egress_iff h hsr hstate hsib]
      unfold egressSib at hsib
      unfold processPacketUses
      split at hsib
      · next htype =>
          cases hsib
          rw [htype]
      · next htype =>
          cases hsib
          rw [htype]
      · cases hsib
  | none =>
      have hentry : voteEntry k msg c = none := by
        rw [voteEntry, hsr, Option.bind_some, hsib, Option.bind_none]
      have hvote : voteOf c (.recv k msg env) = none := by
        rw [voteOf, hentry, Option.map_none, ite_self]
      rw [hvote]
      refine iff_of_true ?_ fun p hp => by cases hp
      have hrouters := inBounds_usesAll (t := .routers) h.routers
      unfold processPacketUses
      split
      · exact inBounds_handshake h hrouters
      · exact inBounds_handshake h hrouters
      · exact inBounds_handshake h fun u hu => absurd hu List.not_mem_nil
      · next htype => simp [egressSib, htype] at hsib
      · next htype => simp [egressSib, htype] at hsib
      · exact hrouters
      · exact fun u hu => absurd hu List.not_mem_nil

/-- The entries an event uses are there exactly if there is room. -/
theorem inBounds_iff (h : TablesFilled c) : (∀ u ∈ uses c e, u.InBounds) ↔ HasRoom c e := by
  have hnil : ∀ u ∈ ([] : List Use), u.InBounds := fun u hu => absurd hu List.not_mem_nil
  have hall := inBounds_usesAll (t := .ospf6Siblings) h.ospf6
  cases e with
  | controller e =>
      cases e with
      | acceptOspf6 raw =>
          simp only [uses, acceptOspf6Uses, HasRoom]
          split
          · next i hi =>
              obtain ⟨hlt, hp, -⟩ := List.findIdx?_eq_some_iff_getElem.mp hi
              have hdisc : c.ospf6Siblings[i].state = .disconnected := of_decide_eq_true hp
              refine iff_of_true (inBounds_append (inBounds_usesAt h.ospf6 fun j hj => ?_) ?_)
                fun hconn => absurd hdisc (hconn _ (List.getElem_mem hlt))
              · rw [h.ok.length_eq] at hlt
                simp only [List.mem_append, List.mem_range, List.mem_singleton] at hj
                omega
              · rw [List.getElem?_eq_getElem hlt]
                exact inBounds_stateTransition h.ospf6 _ _
          · next hnone =>
              have hconn : ∀ sr ∈ c.ospf6Siblings, sr.state ≠ .disconnected := fun sr hsr =>
                of_decide_eq_false (List.findIdx?_eq_none_iff.mp hnone sr hsr)
              constructor
              · intro hin _
                exact (hin ⟨.ospf6Siblings, c.nOspf6Siblings, c.nOspf6Siblings + 1⟩ (by simp)).1
              · intro hroom
                refine inBounds_append hall fun u hu => ?_
                rcases List.mem_cons.mp hu with rfl | hu
                · exact ⟨hroom hconn, Nat.lt_succ_self _⟩
                · exact inBounds_stateTransition (c := { c with nOspf6Siblings := c.nOspf6Siblings + 1 })
                    (hroom hconn) _ _ u hu
      | acceptBgp raw =>
          simp only [uses, acceptBgpUses, HasRoom]
          constructor
          · intro hin
            exact (hin _ List.mem_cons_self).1
          · intro hroom u hu
            rcases List.mem_cons.mp hu with rfl | hu
            · exact ⟨hroom, Nat.lt_succ_self _⟩
            · exact inBounds_stateTransition h.ospf6 _ _ u hu
      | start k =>
          refine iff_of_true ?_ trivial
          rw [uses]
          cases c.sib k with
          | none => exact hnil
          | some sr =>
              rw [Option.elim_some]
              split
              · exact inBounds_stateTransition h.ospf6 _ _
              · exact hnil
      | recv k msg env =>
          rw [uses, HasRoom]
          cases hsr : c.sib k with
          | none =>
              have hvote : voteOf c (.recv k msg env) = none := by
                rw [voteOf, hsr, Option.any_none]
                rfl
              rw [hvote]
              exact iff_of_true hnil fun p hp => by cases hp
          | some sr =>
              rw [Option.elim_some]
              split
              · next hdisc =>
                  have hvote : voteOf c (.recv k msg env) = none := by
                    rw [voteOf, hsr, Option.any_some, hdisc]
                    rfl
                  rw [hvote]
                  exact iff_of_true hnil fun p hp => by cases hp
              · next hstate => exact inBounds_packet_iff h hsr hstate
      | destroy k =>
          refine iff_of_true ?_ trivial
          rw [uses]
          cases c.sib k with
          | none => exact hnil
          | some sr =>
              rw [Option.elim_some]
              split
              · exact hnil
              · exact inBounds_stateTransition h.ospf6 _ _
      | ingress msg xid => exact iff_of_true hall trivial
      | routerSide routers rib => exact iff_of_true hnil trivial
  | acceptRouter =>
      constructor
      · intro hin
        exact (hin _ List.mem_cons_self).1
      · intro hroom u hu
        rw [List.mem_singleton.mp hu]
        exact ⟨hroom, Nat.lt_succ_self _⟩
  | forwardBgp fails =>
      have hbgp := inBounds_usesAll (t := .bgpSiblings) h.bgp
      simp only [uses, HasRoom]
      constructor
      · intro hin i hi hfails
        have hmem : i ∈ (List.range c.nBgpSiblings).filter fails :=
          List.mem_filter.mpr ⟨List.mem_range.mpr hi, hfails⟩
        exact (hin _ (List.mem_append_right _ (mem_usesAt.mpr ⟨i, hmem, rfl⟩))).2
      · intro hroom
        refine inBounds_append hbgp (inBounds_usesAt h.ospf6 fun i hi => ?_)
        obtain ⟨hi, hfails⟩ := List.mem_filter.mp hi
        exact hroom i (List.mem_range.mp hi) hfails

/-- With room, the search of a vote stops at a message. -/
theorem staysInBounds_iff (h : TablesFilled c) : StaysInBounds c e ↔ HasRoom c e := by
  constructor
  · intro hin
    exact (inBounds_iff h).mp hin.uses
  · intro hroom
    refine ⟨(inBounds_iff h).mpr hroom, fun e' c' env he hvote => ?_⟩
    subst he
    have hqueued : SomeQueued c' := by
      cases e' with
      | recv k msg env' => exact hroom _ hvote
      | _ => cases hvote
    have hlt := searchEnd_lt_iff.mpr hqueued
    refine ⟨c'.ospf6Siblings[searchEnd c'], List.getElem?_eq_getElem hlt, ?_⟩
    have hfound : (!c'.ospf6Siblings[searchEnd c'].msgsRcvdQueue.isEmpty) = true := List.findIdx_getElem (w := hlt)
    simpa using hfound

end OneEvent

section Run

variable {c c' : State} {e : TableEvent}

theorem TablesFilled.stepped {e : Event} (h : TablesFilled c) (hroom : HasRoom c (.controller e))
    (hrouters : ∀ routers rib, e = .routerSide routers rib → routers.length = c.routers.length)
    (hstep : Stepped c e c') : TablesFilled c' := by
  have hcounts : c'.nOspf6Siblings ≤ maxOspf6Siblings ∧ c'.nBgpSiblings ≤ maxBgpSiblings ∧
      c'.routers.length ≤ maxRouters := ?_
  · exact ⟨h.ok.stepped hstep, hcounts.1, hcounts.2.1, hcounts.2.2⟩
  cases hstep with
  | openedOspf6 hlt hconn => exact ⟨hlt, h.bgp, h.routers⟩
  | openedBgp => exact ⟨h.ospf6, hroom, h.routers⟩
  | routerSide => exact ⟨h.ospf6, h.bgp, by rw [hrouters _ _ rfl]; exact h.routers⟩
  | handled hsr hstate hhandled => cases hhandled <;> simpa [State.addRouting] using ⟨h.ospf6, h.bgp, h.routers⟩
  | _ => simpa [State.addRouting] using ⟨h.ospf6, h.bgp, h.routers⟩

theorem TablesFilled.step (h : TablesFilled c) (hroom : HasRoom c e) (hstep : (tableMachine.step c e).result = some c') :
    TablesFilled c' := by
  have hevent : ∀ e : Event, HasRoom c (.controller e) →
      (∀ routers rib, e = .routerSide routers rib → routers.length = c.routers.length) →
      (machine.step c e).result = some c' → TablesFilled c' := by
    intro e hroom hrouters hstep
    rcases step_cases hstep with ⟨hc', -⟩ | ⟨c1, env, a, -, -, hc1, rfl⟩
    · exact h.stepped hroom hrouters hc'
    · have h1 := h.stepped hroom hrouters hc1
      exact ⟨h1.ok.voted, h1.ospf6, h1.bgp, h1.routers⟩
  cases e with
  | controller e =>
      cases e with
      | routerSide routers rib =>
          simp only [tableMachine, tableStep] at hstep
          split at hstep
          · next hlen =>
              refine hevent _ hroom (fun routers' rib' he => ?_) hstep
              cases he
              exact hlen
          · cases hstep
            exact h
      | _ => exact hevent _ hroom nofun hstep
  | acceptRouter =>
      obtain ⟨_, hlt, hstep⟩ := Exec.result_bind_eq_some.mp hstep
      cases hstep
      refine ⟨⟨fun k sr hsr => h.ok.sib_ok k sr (by cases k <;> exact hsr), h.ok.length_eq⟩, h.ospf6, h.bgp, ?_⟩
      rw [List.length_append]
      exact Exec.result_require_eq_some.mp hlt
  | forwardBgp fails =>
      cases hstep
      exact h

/-- In a run from the start of the controller every use of the tables is in bounds exactly if there is room at every
step. -/
theorem staysInBounds_iff_hasRoom (numSibs : Int) (voterType : VoterType) (rib : List RibRoute)
    (es : List TableEvent) :
    tableMachine.AllSteps StaysInBounds (.sibRouterInit [] rib numSibs voterType) es ↔
      tableMachine.AllSteps HasRoom (.sibRouterInit [] rib numSibs voterType) es := by
  have hstart : TablesFilled (.sibRouterInit [] rib numSibs voterType) :=
    ⟨ok_sibRouterInit [] rib numSibs voterType, Nat.zero_le _, Nat.zero_le _, Nat.zero_le _⟩
  generalize State.sibRouterInit [] rib numSibs voterType = c at hstart
  induction es generalizing c with
  | nil => exact Iff.rfl
  | cons e es ih =>
      refine and_congr_right_iff.mpr ?_ |>.trans (and_congr_left_iff.mpr fun _ => staysInBounds_iff hstart)
      intro hin
      have hroom := (staysInBounds_iff hstart).mp hin
      exact forall₂_congr fun c' hc' => ih c' (hstart.step hroom hc')

end Run

/-- An OSPF6 sibling and a BGP sibling are connected. -/
def oneOfEach : List TableEvent :=
  [.controller (.acceptOspf6 zeroedSib), .controller (.start (.ospf6 0)), .controller (.acceptBgp zeroedSib),
    .controller (.start (.bgp 0))]

/-- An OSPF6 packet of the BGP sibling. -/
def strayPacket : TableEvent :=
  .controller (.recv (.bgp 0) (.routeflowAllocXid .forwardOspf6 0 []) promptEnv)

/-- It starts a vote among queues that are empty, and the search runs past the one entry. -/
theorem strayPacket_out_of_bounds :
    ¬ tableMachine.AllSteps StaysInBounds (.sibRouterInit [] [] 1 .all) (oneOfEach ++ [strayPacket]) := by
  intro h
  obtain ⟨c, hc, u, hu, hout⟩ := exists_of_any (p := fun c => ∃ u ∈ uses c strayPacket, ¬ u.InBounds)
    (o := (tableMachine.run (.sibRouterInit [] [] 1 .all) oneOfEach).result) (by decide)
  exact hout ((Machine.AllSteps.of_append tableMachine h hc).2.uses u hu)

end Harry.Controller
