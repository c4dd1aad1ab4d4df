import Harry.BaseMajority
import Harry.ControllerState

/-! The voter of `sib_router.c`: the test that enough siblings have a message queued, and
`vote_majority` with its three parts: the search for a first candidate, the scan that counts the
heads equal to it, and, on success, the removal of the heads, the hand-over to the routers and the
step of all sequence numbers. -/

open Harry.Base Harry.Rfp

namespace Harry.Controller

/-- What the environment decides during one call: whether the connection takes the whole buffer at
the `i`-th send of it, and the byte that follows a message in the receive buffer. -/
structure Env where
  whole : Nat → Bool
  spare : UInt8

/-- One buffer handed over for each router in turn. The send that takes all of it frees it, so a
later hand-over in the same loop is of freed memory. -/
def sendEach (env : Env) (out : Nat → Output) : Nat → Nat → Exec Output Unit
  | _, 0 => pure ()
  | i, left + 1 => do
    Exec.emit (out i)
    Exec.require (left = 0 ∨ env.whole i = false)
    sendEach env out (i + 1) left

/-- `(float)num/num_hosts > 0.5` on the integers that occur here: a count of siblings, so both
conversions and the comparison are exact; a zero divisor gives infinity, or a NaN for `0/0`. -/
def aboveHalf (num : Nat) (numHosts : Int) : Bool :=
  if numHosts = 0 then decide (0 < num) else decide (0 < numHosts ∧ numHosts < 2 * num)

/-- `num_waiting_on_first_egress_msg`. -/
def numWaitingOnFirstEgressMsg (c : State) : Nat :=
  c.ospf6Siblings.countP (·.waitingOnFirstEgressMsg)

/-- `num_hosts`, as `majority_have_msg_rcvd` and `vote_majority` compute it. -/
def numHosts (c : State) : Int :=
  match c.voterTypeConf with
  | .all => c.numSibsConf
  | .any => c.nOspf6SiblingsRouting - numWaitingOnFirstEgressMsg c

/-- The sibling is not disconnected and has a message queued. -/
def hasMsgRcvd (sr : SibRouter) : Bool :=
  decide (sr.state ≠ .disconnected) && !sr.msgsRcvdQueue.isEmpty

/-- The loop of `majority_have_msg_rcvd`: its counter is also its index, and the body's `i++` makes
it skip the sibling after each one it counts. -/
def msgRcvdLoop : List SibRouter → Nat → Nat
  | [], i => i
  | [sr], i => if hasMsgRcvd sr then i + 2 else i + 1
  | sr :: sr' :: rest, i =>
    if hasMsgRcvd sr then msgRcvdLoop rest (i + 2) else msgRcvdLoop (sr' :: rest) (i + 1)

/-- `majority_have_msg_rcvd`. -/
def majorityHaveMsgRcvd (c : State) : Bool := aboveHalf (msgRcvdLoop c.ospf6Siblings 0) (numHosts c)

/-- `append_msg_to_rcvd_queue`. -/
def appendMsgToRcvdQueue (sr : SibRouter) (msg : Rfpbuf) : SibRouter :=
  { sr with msgsRcvdQueue := sr.msgsRcvdQueue ++ [msg] }

/-- The first loop of `vote_majority`: the first sibling with a message, as the message and the
siblings after it. The index runs past the last sibling when every queue is empty. -/
def candidate : List SibRouter → Option (Rfpbuf × List SibRouter)
  | [] => none
  | sr :: rest =>
    match sr.msgsRcvdQueue with
    | [] => candidate rest
    | a :: _ => some (a, rest)

/-- The second loop of `vote_majority`: the running candidate `a` and `num_of_equal_msgs`. -/
def scanEqual : List SibRouter → Rfpbuf → Nat → Rfpbuf × Nat
  | [], a, num => (a, num)
  | sr :: rest, a, num =>
    if sr.state = .disconnected then scanEqual rest a num
    else
      match sr.msgsRcvdQueue with
      | [] => scanEqual rest a num
      | b :: _ => if a.rfpbufEqual b then scanEqual rest b (num + 1) else scanEqual rest a num

/-- The message `vote_majority` ends up with and the number of heads it found equal to it. -/
def tally (c : State) : Option (Rfpbuf × Nat) :=
  (candidate c.ospf6Siblings).map fun x => scanEqual x.2 x.1 1

/-- The third loop of `vote_majority`: the front of every queue that has one goes. -/
def popHead (sr : SibRouter) : SibRouter := { sr with msgsRcvdQueue := sr.msgsRcvdQueue.tail }

/-- The last loop of `vote_majority`. -/
def bumpEgressXid (sr : SibRouter) : SibRouter :=
  { sr with currentEgressXid := sr.currentEgressXid + 1 }

/-- What a won vote leaves behind. -/
def State.voted (c : State) : State :=
  { c with ospf6Siblings := (c.ospf6Siblings.map popHead).map bumpEgressXid }

/-- The write of the leader's sequence number to the database, for a leader that is there. -/
def storeEgressXid (c : State) : Exec Output Unit :=
  match c.leaderSibling.bind c.sib with
  | none => pure ()
  | some leader =>
    if leader.state ≠ .disconnected then Exec.emit (.dbSetEgressXid leader.currentEgressXid)
    else pure ()

/-- `vote_majority`. -/
def voteMajority (env : Env) (c : State) : Exec Output State := do
  let (a, num) ← Exec.deref (tally c)
  if aboveHalf num (numHosts c) then
    Exec.emit .achievedMajority
    sendEach env (fun i => .routerForward .voteMajority i a) 0 c.routers.length
    storeEgressXid c.voted
    pure c.voted
  else
    pure c

theorem numHosts_all {c : State} (h : c.voterTypeConf = .all) : numHosts c = c.numSibsConf := by
  rw [numHosts, h]

section SendEach

variable {env : Env} {out : Nat → Output}

/-- Every router is served unless the buffer is gone before the last one. -/
theorem result_sendEach {i n : Nat} :
    (sendEach env out i n).result = some () ↔ ∀ j, i ≤ j → j + 1 < i + n → env.whole j = false := by
  induction n generalizing i with
  | zero =>
      simp only [sendEach, Exec.result_pure, true_iff]
      intro j hij hj
      omega
  | succ n ih =>
      simp only [sendEach, Exec.result_bind_eq_some, Exec.result_emit, Exec.result_require_eq_some, true_and,
        exists_const, ih]
      constructor
      · rintro ⟨hi, hrest⟩ j hij hj
        rcases Nat.eq_or_lt_of_le hij with rfl | hlt
        · exact hi.resolve_left (by omega)
        · exact hrest j hlt (by omega)
      · intro h
        refine ⟨?_, fun j hij hj => h j (by omega) (by omega)⟩
        rcases Nat.eq_zero_or_pos n with hn | hn
        · exact Or.inl hn
        · exact Or.inr (h i (Nat.le_refl i) (by omega))

/-- The routers are served in order, up to the place where the buffer is gone. -/
theorem outs_sendEach_inOrder (i n : Nat) :
    (sendEach env out i n).outs <+: (List.range' i n).map out := by
  induction n generalizing i with
  | zero => exact List.prefix_rfl
  | succ n ih =>
      simp only [sendEach, Exec.outs_emit_bind, List.range'_succ, List.map_cons]
      refine (List.prefix_cons_inj _).mpr ?_
      by_cases h : n = 0 ∨ env.whole i = false
      · rw [Exec.bind_of_some (a := ()) _ (Exec.result_require_eq_some.mpr h)]
        exact ih (i + 1)
      · rw [Exec.bind_of_none _ (by simp [h])]
        exact List.nil_prefix

end SendEach

/-- The sibling is connected and the head of its queue is `m`. -/
def votesFor (m : Rfpbuf) (sr : SibRouter) : Bool :=
  decide (sr.state ≠ .disconnected ∧ sr.msgsRcvdQueue.head? = some m)

theorem votesFor_iff {m : Rfpbuf} {sr : SibRouter} :
    votesFor m sr = true ↔ sr.state ≠ .disconnected ∧ sr.msgsRcvdQueue.head? = some m :=
  decide_eq_true_iff

/-- The scan never leaves its first candidate: it only ever replaces it by an equal message. -/
theorem scanEqual_eq (l : List SibRouter) (a : Rfpbuf) (num : Nat) :
    scanEqual l a num = (a, num + l.countP (votesFor a)) := by
  induction l generalizing num with
  | nil => rfl
  | cons sr l ih =>
      rw [scanEqual, List.countP_cons]
      by_cases hd : sr.state = .disconnected
      · simp [hd, ih, votesFor]
      · rw [if_neg hd]
        cases hq : sr.msgsRcvdQueue with
        | nil => simp [ih, votesFor, hq]
        | cons b q =>
            by_cases hab : a.rfpbufEqual b = true
            · have heq : b = a := (Rfpbuf.rfpbufEqual_iff.mp hab).symm
              subst heq
              simp only [hab, if_true, ih, votesFor, hq, List.head?_cons, ne_eq, hd, not_false_eq_true,
                and_self, decide_true, Prod.mk.injEq, true_and]
              omega
            · have hne : b ≠ a := fun h => hab (Rfpbuf.rfpbufEqual_iff.mpr h.symm)
              simp [hab, ih, votesFor, hq, hne]

/-- The first message at the head of a queue, in the order of the table. -/
def firstHead (l : List SibRouter) : Option Rfpbuf := l.findSome? (·.msgsRcvdQueue.head?)

/-- Where disconnected siblings have empty queues, the vote is on the first head and counts all
the siblings that vote for it. -/
theorem tally_eq {c : State}
    (h : ∀ sr ∈ c.ospf6Siblings, sr.state = .disconnected → sr.msgsRcvdQueue = []) :
    tally c = (firstHead c.ospf6Siblings).map fun a => (a, c.ospf6Siblings.countP (votesFor a)) := by
  rw [tally, firstHead]
  generalize c.ospf6Siblings = l at h
  induction l with
  | nil => rfl
  | cons sr l ih =>
      have ih := ih fun x hx => h x (List.mem_cons_of_mem _ hx)
      cases hq : sr.msgsRcvdQueue with
      | nil =>
          have hskip : ∀ a, votesFor a sr = false := fun a => by simp [votesFor, hq]
          simp only [candidate, hq, List.findSome?_cons, List.head?_nil, ih, List.countP_cons, hskip,
            Bool.false_eq_true, if_false, Nat.add_zero]
      | cons a q =>
          have hconn : sr.state ≠ .disconnected := fun hd => by
            have hnil := h sr List.mem_cons_self hd
            rw [hq] at hnil
            cases hnil
          have hvote : votesFor a sr = true := votesFor_iff.mpr ⟨hconn, by rw [hq]; rfl⟩
          simp only [candidate, hq, List.findSome?_cons, List.head?_cons, Option.map_some, scanEqual_eq,
            List.countP_cons, hvote, if_true, Nat.add_comm 1]

/-- The message a call of `vote_majority` decides for, if any. -/
def winner (c : State) : Option Rfpbuf :=
  (tally c).bind fun x => if aboveHalf x.2 (numHosts c) then some x.1 else none

theorem lt_of_aboveHalf {num : Nat} {n : Int} (h : aboveHalf num n = true) : n < 2 * num ∧ 0 ≤ n := by
  unfold aboveHalf at h
  split_ifs at h with h0
  · have := of_decide_eq_true h
    omega
  · have := of_decide_eq_true h
    omega

theorem aboveHalf_of_lt {num : Nat} {n : Int} (h0 : 0 ≤ n) (h : n < 2 * num) : aboveHalf num n = true := by
  unfold aboveHalf
  split_ifs with hn
  · exact decide_eq_true (by omega)
  · exact decide_eq_true (by omega)

theorem winner_eq_some {c : State} {m : Rfpbuf} :
    winner c = some m ↔ ∃ num, tally c = some (m, num) ∧ aboveHalf num (numHosts c) = true := by
  rw [winner, Option.bind_eq_some_iff]
  constructor
  · rintro ⟨⟨a, num⟩, htally, h⟩
    split_ifs at h with hhalf
    cases h
    exact ⟨num, htally, hhalf⟩
  · rintro ⟨num, htally, hhalf⟩
    exact ⟨(m, num), htally, by rw [if_pos hhalf]⟩

/-- The winner of a vote has the votes of more than half of the divisor. -/
theorem lt_countP_of_winner {c : State}
    (hnil : ∀ sr ∈ c.ospf6Siblings, sr.state = .disconnected → sr.msgsRcvdQueue = []) {m : Rfpbuf}
    (h : winner c = some m) : numHosts c < 2 * c.ospf6Siblings.countP (votesFor m) ∧ 0 ≤ numHosts c := by
  obtain ⟨num, htally, hhalf⟩ := winner_eq_some.mp h
  rw [tally_eq hnil, Option.map_eq_some_iff] at htally
  obtain ⟨a, -, ha⟩ := htally
  cases ha
  exact lt_of_aboveHalf hhalf

/-! ### `vote_majority` as a whole -/

/-- No router before the last one takes all of the buffer at once, so it lives until the loop over
the routers ends. -/
def Env.Survives (env : Env) (n : Nat) : Prop := ∀ j < n - 1, env.whole j = false

instance (env : Env) (n : Nat) : Decidable (env.Survives n) :=
  inferInstanceAs (Decidable (∀ j < n - 1, env.whole j = false))

theorem outs_storeEgressXid {c : State} {o : Output} (h : o ∈ (storeEgressXid c).outs) :
    ∃ xid, o = .dbSetEgressXid xid := by
  unfold storeEgressXid at h
  split at h
  · cases h
  · split_ifs at h
    · exact ⟨_, List.mem_singleton.mp h⟩
    · cases h

theorem result_storeEgressXid (c : State) : (storeEgressXid c).result = some () := by
  unfold storeEgressXid
  split
  · rfl
  · split_ifs <;> rfl

theorem voteMajority_of_winner {env : Env} {c : State} {a : Rfpbuf} (h : winner c = some a) :
    voteMajority env c = (do
      Exec.emit .achievedMajority
      sendEach env (fun i => .routerForward .voteMajority i a) 0 c.routers.length
      storeEgressXid c.voted
      pure c.voted) := by
  obtain ⟨num, htally, hhalf⟩ := winner_eq_some.mp h
  rw [voteMajority, htally, Exec.deref_some_bind]
  exact if_pos hhalf

/-- A vote that returns has either changed nothing or taken the step for its winner. -/
theorem result_voteMajority {env : Env} {c c' : State} (h : (voteMajority env c).result = some c') :
    (winner c = none ∧ c' = c) ∨
      (∃ a, winner c = some a ∧ c' = c.voted ∧ env.Survives c.routers.length) := by
  cases hw : winner c with
  | none =>
      refine Or.inl ⟨rfl, ?_⟩
      obtain ⟨⟨a, num⟩, htally, h⟩ := Exec.result_bind_eq_some.mp h
      have hlow : ¬ aboveHalf num (numHosts c) = true := fun hhalf => by
        have := winner_eq_some.mpr ⟨num, htally, hhalf⟩
        rw [hw] at this
        cases this
      simp only [hlow] at h
      exact (Option.some.inj h).symm
  | some a =>
      refine Or.inr ⟨a, rfl, ?_⟩
      rw [voteMajority_of_winner hw] at h
      obtain ⟨_, -, h⟩ := Exec.result_bind_eq_some.mp h
      obtain ⟨_, hsend, h⟩ := Exec.result_bind_eq_some.mp h
      obtain ⟨_, -, h⟩ := Exec.result_bind_eq_some.mp h
      refine ⟨(Option.some.inj h).symm, fun j hj => result_sendEach.mp hsend j (Nat.zero_le j) (by omega)⟩

/-- What a call of `vote_majority` has handed to one router. -/
def forwardedTo (r : Nat) (os : List Output) : List Rfpbuf :=
  os.filterMap fun
    | .routerForward .voteMajority i m => if i = r then some m else none
    | _ => none

theorem forwardedTo_append (r : Nat) (os os' : List Output) :
    forwardedTo r (os ++ os') = forwardedTo r os ++ forwardedTo r os' :=
  List.filterMap_append

theorem forwardedTo_eq_nil {r : Nat} {os : List Output}
    (h : ∀ o ∈ os, ∀ i m, o ≠ .routerForward .voteMajority i m) : forwardedTo r os = [] := by
  refine List.filterMap_eq_nil_iff.mpr fun o ho => ?_
  cases o with
  | routerForward site i m =>
      cases site with
      | voteMajority => exact absurd rfl (h _ ho i m)
      | forwardBgp => rfl
  | _ => rfl

theorem mem_forwardedTo {r : Nat} {os : List Output} {m : Rfpbuf} :
    m ∈ forwardedTo r os ↔ .routerForward .voteMajority r m ∈ os := by
  rw [forwardedTo, List.mem_filterMap]
  constructor
  · rintro ⟨o, ho, h⟩
    cases o with
    | routerForward site i m' =>
        cases site with
        | voteMajority =>
            simp only [Option.ite_none_right_eq_some, Option.some.injEq] at h
            obtain ⟨rfl, rfl⟩ := h
            exact ho
        | forwardBgp => cases h
    | _ => cases h
  · intro h
    exact ⟨_, h, by simp⟩

/-- A router gets the winner once, if no router before it has taken the whole buffer. -/
theorem forwardedTo_sendEach (env : Env) (a : Rfpbuf) (r i n : Nat) :
    forwardedTo r (sendEach env (fun j => .routerForward .voteMajority j a) i n).outs =
      if i ≤ r ∧ r < i + n ∧ ∀ j, i ≤ j → j < r → env.whole j = false then [a] else [] := by
  induction n generalizing i with
  | zero =>
      rw [if_neg (by omega)]
      rfl
  | succ n ih =>
      rw [sendEach, Exec.outs_emit_bind, forwardedTo, List.filterMap_cons, ← forwardedTo]
      by_cases hgo : n = 0 ∨ env.whole i = false
      · rw [Exec.bind_of_some (a := ()) _ (Exec.result_require_eq_some.mpr hgo), Exec.outs_require,
          List.nil_append, ih]
        by_cases hir : i = r
        · subst hir
          simp only [if_true]
          rw [if_neg (by omega), if_pos ⟨Nat.le_refl i, by omega, fun j hij hji => by omega⟩]
        · simp only [hir, if_false]
          refine if_congr ⟨fun ⟨h1, h2, h3⟩ => ⟨by omega, by omega, fun j hij hjr => ?_⟩,
            fun ⟨h1, h2, h3⟩ => ⟨by omega, by omega, fun j hij hjr => h3 j (by omega) hjr⟩⟩ rfl rfl
          rcases Nat.eq_or_lt_of_le hij with rfl | hlt
          · exact hgo.resolve_left (by omega)
          · exact h3 j hlt hjr
      · rw [Exec.bind_of_none _ (by simp [hgo])]
        by_cases hir : i = r
        · subst hir
          simp only [if_true]
          rw [if_pos ⟨Nat.le_refl i, by omega, fun j hij hji => by omega⟩]
          rfl
        · simp only [hir, if_false]
          rw [if_neg fun ⟨h1, h2, h3⟩ => hgo (Or.inr (h3 i (Nat.le_refl i) (by omega)))]
          rfl

section Outputs

variable {env : Env} {c : State}

theorem outs_voteMajority_of_winner (env : Env) {a : Rfpbuf} (h : winner c = some a) :
    ∃ os, (voteMajority env c).outs = .achievedMajority ::
        ((sendEach env (fun i => .routerForward .voteMajority i a) 0 c.routers.length).outs ++ os) ∧
      (∀ o ∈ os, ∃ xid, o = .dbSetEgressXid xid) := by
  rw [voteMajority_of_winner h, Exec.outs_emit_bind]
  cases hs : (sendEach env (fun i => .routerForward .voteMajority i a) 0 c.routers.length).result with
  | none => exact ⟨[], by rw [Exec.bind_of_none _ hs, List.append_nil], by simp⟩
  | some u =>
      refine ⟨(storeEgressXid c.voted).outs, ?_, fun o ho => outs_storeEgressXid ho⟩
      rw [Exec.bind_of_some _ hs, Exec.bind_of_some _ (result_storeEgressXid _)]
      simp

theorem outs_voteMajority_of_winner_eq_none (h : winner c = none) : (voteMajority env c).outs = [] := by
  cases ht : tally c with
  | none => rw [voteMajority, ht, Exec.bind_of_none _ rfl, Exec.outs_deref]
  | some x =>
      have hlow : ¬ aboveHalf x.2 (numHosts c) = true := fun hhalf => by
        have := winner_eq_some.mpr ⟨x.2, ht, hhalf⟩
        rw [h] at this
        cases this
      rw [voteMajority, ht, Exec.deref_some_bind]
      exact congrArg Exec.outs (if_neg hlow)

/-- A vote hands nothing but its winner to the routers. -/
theorem winner_of_routerForward {site : CallSite} {r : Nat} {m : Rfpbuf}
    (h : .routerForward site r m ∈ (voteMajority env c).outs) :
    site = .voteMajority ∧ winner c = some m := by
  cases hw : winner c with
  | none =>
      rw [outs_voteMajority_of_winner_eq_none hw] at h
      cases h
  | some a =>
      obtain ⟨os, houts, hos⟩ := outs_voteMajority_of_winner env hw
      rw [houts, List.mem_cons, List.mem_append] at h
      rcases h with h | h | h
      · cases h
      · obtain ⟨i, -, hi⟩ := List.mem_map.mp ((outs_sendEach_inOrder 0 _).subset h)
        cases hi
        exact ⟨rfl, rfl⟩
      · obtain ⟨xid, hx⟩ := hos _ h
        cases hx

/-- What a vote hands to a router. -/
theorem forwardedTo_of_winner {a : Rfpbuf} (h : winner c = some a) (r : Nat) :
    forwardedTo r (voteMajority env c).outs =
      if r < c.routers.length ∧ ∀ j < r, env.whole j = false then [a] else [] := by
  obtain ⟨os, houts, hos⟩ := outs_voteMajority_of_winner env h
  have htail : forwardedTo r os = [] := forwardedTo_eq_nil fun o ho i m h => by
    obtain ⟨xid, hx⟩ := hos o ho
    rw [hx] at h
    cases h
  rw [houts, ← List.singleton_append, forwardedTo_append, forwardedTo_append, htail, List.append_nil,
    forwardedTo_sendEach]
  simp [forwardedTo]

theorem forwardedTo_of_winner_eq_none (h : winner c = none) (r : Nat) :
    forwardedTo r (voteMajority env c).outs = [] := by
  rw [outs_voteMajority_of_winner_eq_none h]
  rfl

/-- A won vote returns unless the buffer is gone before the last router. -/
theorem result_of_winner {a : Rfpbuf} (h : winner c = some a) (hs : env.Survives c.routers.length) :
    (voteMajority env c).result = some c.voted := by
  rw [voteMajority_of_winner h]
  refine Exec.result_bind_eq_some.mpr ⟨(), rfl, Exec.result_bind_eq_some.mpr ⟨(), ?_, ?_⟩⟩
  · exact result_sendEach.mpr fun j _ hj => hs j (by omega)
  · exact Exec.result_bind_eq_some.mpr ⟨(), result_storeEgressXid _, rfl⟩

end Outputs

end Harry.Controller
