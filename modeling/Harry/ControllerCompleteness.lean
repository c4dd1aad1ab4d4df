import Harry.ControllerStep

/-! Which votes `vote_majority` wins, and what a won vote does to the queues. The scan compares
every head with one candidate, the first head in the order of the table, so the majority has to own
that head; and the third loop takes the front of every queue, also of those whose message was for a
later sequence number. -/

open Harry.Base Harry.Rfp

namespace Harry.Controller

theorem firstHead_eq_map_candidate (l : List SibRouter) : firstHead l = (candidate l).map Prod.fst := by
  induction l with
  | nil => rfl
  | cons sr l ih =>
      cases hq : sr.msgsRcvdQueue with
      | nil => simp [firstHead, candidate, hq, ← ih]
      | cons a q => simp [firstHead, candidate, hq]

/-- The siblings before the candidate have nothing to vote with. -/
theorem countP_le_of_candidate {l rest : List SibRouter} {a : Rfpbuf} (h : candidate l = some (a, rest))
    (m : Rfpbuf) : l.countP (votesFor m) ≤ 1 + rest.countP (votesFor m) := by
  induction l with
  | nil => cases h
  | cons sr l ih =>
      cases hq : sr.msgsRcvdQueue with
      | nil =>
          simp only [candidate, hq] at h
          rw [List.countP_cons_of_neg (by simp [votesFor, hq])]
          exact ih h
      | cons b q =>
          simp only [candidate, hq, Option.some.injEq, Prod.mk.injEq] at h
          obtain ⟨-, rfl⟩ := h
          rw [List.countP_cons]
          split_ifs <;> omega

/-- `m` is at the head of the queues of more than half of `num_hosts` connected siblings. -/
def Majority (c : State) (m : Rfpbuf) : Prop := numHosts c < 2 * c.ospf6Siblings.countP (votesFor m)

instance (c : State) (m : Rfpbuf) : Decidable (Majority c m) :=
  inferInstanceAs (Decidable (numHosts c < 2 * c.ospf6Siblings.countP (votesFor m)))

section Winner

variable {c : State} {m : Rfpbuf}

theorem firstHead_of_winner (h : winner c = some m) : firstHead c.ospf6Siblings = some m := by
  obtain ⟨num, htally, -⟩ := winner_eq_some.mp h
  obtain ⟨⟨a, rest⟩, hcand, hscan⟩ := Option.map_eq_some_iff.mp htally
  rw [scanEqual_eq] at hscan
  cases hscan
  rw [firstHead_eq_map_candidate, hcand]
  rfl

/-- A majority wins exactly when it owns the first head. -/
theorem winner_iff_of_majority (hm : Majority c m) :
    winner c = some m ↔ firstHead c.ospf6Siblings = some m ∧ 0 ≤ numHosts c := by
  constructor
  · intro h
    obtain ⟨num, -, hhalf⟩ := winner_eq_some.mp h
    exact ⟨firstHead_of_winner h, (lt_of_aboveHalf hhalf).2⟩
  · rintro ⟨hfirst, hpos⟩
    rw [firstHead_eq_map_candidate] at hfirst
    obtain ⟨⟨a, rest⟩, hcand, ha⟩ := Option.map_eq_some_iff.mp hfirst
    replace ha : a = m := ha
    subst ha
    have hle := countP_le_of_candidate hcand a
    refine winner_eq_some.mpr ⟨1 + rest.countP (votesFor a), ?_, aboveHalf_of_lt hpos ?_⟩
    · simp [tally, hcand, scanEqual_eq]
    · unfold Majority at hm
      push_cast
      omega

end Winner

/-- A vote that nobody wins changes nothing, as long as there is a message to vote on. -/
theorem result_of_winner_eq_none {env : Env} {c : State} (h : winner c = none) {sr : SibRouter}
    (hsr : sr ∈ c.ospf6Siblings) (hq : sr.msgsRcvdQueue ≠ []) : (voteMajority env c).result = some c := by
  cases ht : tally c with
  | none =>
      have hnone : firstHead c.ospf6Siblings = none := by
        rw [firstHead_eq_map_candidate, Option.map_eq_none_iff]
        exact Option.map_eq_none_iff.mp ht
      have := List.findSome?_eq_none_iff.mp hnone sr hsr
      exact absurd (List.head?_eq_none_iff.mp this) hq
  | some x =>
      have hlow : ¬ aboveHalf x.2 (numHosts c) = true := fun hhalf => by
        have := winner_eq_some.mpr ⟨x.2, ht, hhalf⟩
        rw [h] at this
        cases this
      rw [voteMajority, ht, Exec.deref_some_bind]
      exact congrArg Exec.result (if_neg hlow)

/-- The call hands `m`, once, to every router. -/
def ForwardsToAll (env : Env) (c : State) (m : Rfpbuf) : Prop :=
  ∀ r < c.routers.length, forwardedTo r (voteMajority env c).outs = [m]

instance (env : Env) (c : State) (m : Rfpbuf) : Decidable (ForwardsToAll env c m) :=
  inferInstanceAs (Decidable (∀ r < c.routers.length, _ = _))

theorem forwardsToAll_iff_winner {env : Env} {c : State} {m : Rfpbuf} : ForwardsToAll env c m ↔
    c.routers = [] ∨ (winner c = some m ∧ env.Survives c.routers.length) := by
  constructor
  · intro h
    by_cases hn : c.routers = []
    · exact Or.inl hn
    · have hlast : c.routers.length - 1 < c.routers.length :=
        Nat.sub_lt (List.length_pos_iff.mpr hn) Nat.one_pos
      have hfor := h _ hlast
      cases hw : winner c with
      | none =>
          rw [forwardedTo_of_winner_eq_none hw] at hfor
          cases hfor
      | some a =>
          rw [forwardedTo_of_winner hw] at hfor
          split_ifs at hfor with hcond
          cases hfor
          exact Or.inr ⟨rfl, fun j hj => hcond.2 j (by omega)⟩
  · rintro (hn | ⟨hw, hs⟩) r hr
    · simp [hn] at hr
    · rw [forwardedTo_of_winner hw, if_pos ⟨hr, fun j hj => hs j (by omega)⟩]

theorem numHosts_perm (c : State) {l : List SibRouter} (h : l.Perm c.ospf6Siblings) :
    numHosts { c with ospf6Siblings := l } = numHosts c := by
  simp [numHosts, numWaitingOnFirstEgressMsg, h.countP_eq]

theorem majority_perm {c : State} {m : Rfpbuf} {l : List SibRouter} (h : l.Perm c.ospf6Siblings) :
    Majority { c with ospf6Siblings := l } m ↔ Majority c m := by
  simp [Majority, numHosts_perm c h, h.countP_eq]

/-- Where all heads are equal, the first one is the common one. -/
theorem firstHead_of_forall {l : List SibRouter} {m : Rfpbuf}
    (hall : ∀ sr ∈ l, ∀ a ∈ sr.msgsRcvdQueue.head?, a = m) (hex : 0 < l.countP (votesFor m)) :
    firstHead l = some m := by
  obtain ⟨sr, hsr, hv⟩ := List.countP_pos_iff.mp hex
  cases hf : firstHead l with
  | none =>
      have := List.findSome?_eq_none_iff.mp hf sr hsr
      rw [(votesFor_iff.mp hv).2] at this
      cases this
  | some a =>
      obtain ⟨sr', hsr', ha⟩ := List.exists_of_findSome?_eq_some hf
      rw [hall sr' hsr' a ha]

/-- A majority gets its message to every router exactly when it owns the first head and the buffer
lives through the loop over the routers. For that to be so wherever its siblings stand in the table,
no other message may be at the head of a queue. -/
theorem forwardsToAll_iff {env : Env} {c : State} {m : Rfpbuf} (hm : Majority c m) :
    (ForwardsToAll env c m ↔ c.routers = [] ∨
      (firstHead c.ospf6Siblings = some m ∧ 0 ≤ numHosts c ∧ env.Survives c.routers.length)) ∧
    ((∀ l, l.Perm c.ospf6Siblings → ForwardsToAll env { c with ospf6Siblings := l } m) ↔ c.routers = [] ∨
      ((∀ sr ∈ c.ospf6Siblings, ∀ a ∈ sr.msgsRcvdQueue.head?, a = m) ∧ 0 ≤ numHosts c ∧
        env.Survives c.routers.length)) := by
  have hstate : ∀ l, l.Perm c.ospf6Siblings → (ForwardsToAll env { c with ospf6Siblings := l } m ↔
      c.routers = [] ∨ (firstHead l = some m ∧ 0 ≤ numHosts c ∧ env.Survives c.routers.length)) := by
    intro l hl
    rw [forwardsToAll_iff_winner, winner_iff_of_majority ((majority_perm hl).mpr hm), numHosts_perm c hl,
      and_assoc]
  refine ⟨hstate _ (List.Perm.refl _), ?_⟩
  constructor
  · intro h
    by_cases hn : c.routers = []
    · exact Or.inl hn
    · obtain ⟨-, hpos, hs⟩ := ((hstate _ (List.Perm.refl _)).mp (h _ (List.Perm.refl _))).resolve_left hn
      refine Or.inr ⟨fun sr hsr a ha => ?_, hpos, hs⟩
      -- the table with this sibling moved to the front
      obtain ⟨s, t, hst⟩ := List.append_of_mem hsr
      have hperm : (sr :: (s ++ t)).Perm c.ospf6Siblings := hst ▸ List.perm_middle.symm
      obtain ⟨hfirst, -⟩ := ((hstate _ hperm).mp (h _ hperm)).resolve_left hn
      rw [firstHead, List.findSome?_cons, Option.mem_def.mp ha] at hfirst
      exact Option.some.inj hfirst
  · rintro (hn | ⟨hall, hpos, hs⟩) l hl
    · exact (hstate l hl).mpr (Or.inl hn)
    · refine (hstate l hl).mpr (Or.inr ⟨firstHead_of_forall (fun sr hsr => hall sr (hl.mem_iff.mp hsr)) ?_,
        hpos, hs⟩)
      have := (majority_perm hl).mpr hm
      rw [Majority, numHosts_perm c hl] at this
      show 0 < l.countP (votesFor m)
      simp only at this
      omega

/-- Two of three siblings have the message, and the third has none yet. -/
theorem forwardsToAll_of_two_of_three : ∃ c,
    voteAfter (State.sibRouterInit [⟨[]⟩] [] 3 .all) (connectAll 3 ++ [sendOspf6 0 3 []])
      (sendOspf6 1 3 []) = some c ∧
    ∀ l, l.Perm c.ospf6Siblings →
      ForwardsToAll promptEnv { c with ospf6Siblings := l } (.routeflowAllocXid .forwardOspf6 3 []) := by
  obtain ⟨c, hc, hm, hall, hpos, hs⟩ : ∃ c,
      voteAfter (State.sibRouterInit [⟨[]⟩] [] 3 .all) (connectAll 3 ++ [sendOspf6 0 3 []])
        (sendOspf6 1 3 []) = some c ∧ Majority c (.routeflowAllocXid .forwardOspf6 3 []) ∧
      (∀ sr ∈ c.ospf6Siblings, ∀ a ∈ sr.msgsRcvdQueue.head?, a = .routeflowAllocXid .forwardOspf6 3 []) ∧
      0 ≤ numHosts c ∧ promptEnv.Survives c.routers.length :=
    exists_of_any (by decide)
  exact ⟨c, hc, (forwardsToAll_iff hm).2.mpr (Or.inr ⟨hall, hpos, hs⟩)⟩

/-- The first of three siblings, with a packet of its own, blocks the other two. -/
theorem majority_blocked_by_first : ∃ c,
    voteAfter (State.sibRouterInit [⟨[]⟩] [] 3 .all)
      (connectAll 3 ++ [sendOspf6 0 3 [7], sendOspf6 1 3 []]) (sendOspf6 2 3 []) = some c ∧
    Majority c (.routeflowAllocXid .forwardOspf6 3 []) ∧
    ¬ ForwardsToAll promptEnv c (.routeflowAllocXid .forwardOspf6 3 []) :=
  exists_of_any (by decide)

/-! ### The queues after a vote -/

/-- A queue after the vote for `m`, if its front goes only where the vote was about it. -/
def withoutVoted (m : Rfpbuf) : List Rfpbuf → List Rfpbuf
  | [] => []
  | a :: q => if a = m ∨ a.xid ≤ m.xid then q else a :: q

theorem tail_eq_withoutVoted_iff {m : Rfpbuf} {q : List Rfpbuf} :
    q.tail = withoutVoted m q ↔ ∀ a ∈ q.head?, a = m ∨ a.xid ≤ m.xid := by
  cases q with
  | nil => simp [withoutVoted]
  | cons a q =>
      by_cases h : a = m ∨ a.xid ≤ m.xid
      · simp [withoutVoted, h]
      · simp [withoutVoted, h]

/-- From `c` to `c'` each queue has lost its front where the vote for `m` was about it, and nothing
else. -/
def KeepsVotes (m : Rfpbuf) (c c' : State) : Prop :=
  c'.ospf6Siblings.map (·.msgsRcvdQueue) = c.ospf6Siblings.map fun sr => withoutVoted m sr.msgsRcvdQueue

instance (m : Rfpbuf) (c c' : State) : Decidable (KeepsVotes m c c') :=
  inferInstanceAs (Decidable (_ = _))

/-- No vote is lost in a won vote exactly when no queue has a message in front that is for a later
sequence number than the first head. -/
theorem keepsVotes_iff {c c' c'' : State} {e : Event} {env : Env} {m : Rfpbuf}
    (hvote : voteOf c e = some (c', env)) (hwin : winner c' = some m)
    (hres : (machine.step c e).result = some c'') :
    KeepsVotes m c' c'' ↔ ∀ f ∈ firstHead c'.ospf6Siblings, ∀ sr ∈ c'.ospf6Siblings,
      ∀ a ∈ sr.msgsRcvdQueue.head?, a = f ∨ a.xid ≤ f.xid := by
  have hvoted : c'' = c'.voted := by
    rw [step_of_voteOf hvote] at hres
    rcases result_voteMajority hres with ⟨hnone, -⟩ | ⟨a, -, h, -⟩
    · rw [hwin] at hnone
      cases hnone
    · exact h
  have hqueues : c''.ospf6Siblings.map (·.msgsRcvdQueue) =
      c'.ospf6Siblings.map fun sr => sr.msgsRcvdQueue.tail := by
    simp [hvoted, State.voted, bumpEgressXid, popHead, Function.comp_def]
  rw [KeepsVotes, hqueues, List.map_inj_left, firstHead_of_winner hwin]
  constructor
  · rintro h f hf sr hsr
    cases hf
    exact tail_eq_withoutVoted_iff.mp (h sr hsr)
  · intro h sr hsr
    exact tail_eq_withoutVoted_iff.mpr (h m rfl sr hsr)

/-- A vote in which the siblings are at the same sequence number. -/
theorem keepsVotes_of_two_of_three : ∃ c c' c'' env, Reached 3 .all c ∧
    voteOf c (sendOspf6 1 3 []) = some (c', env) ∧
    winner c' = some (.routeflowAllocXid .forwardOspf6 3 []) ∧
    (machine.step c (sendOspf6 1 3 [])).result = some c'' ∧
    KeepsVotes (.routeflowAllocXid .forwardOspf6 3 []) c' c'' := by
  obtain ⟨c, hc, hvote, hres⟩ : ∃ c, (machine.run (State.sibRouterInit [⟨[]⟩] [] 3 .all)
      (connectAll 3 ++ [sendOspf6 0 3 []])).result = some c ∧
      ((voteOf c (sendOspf6 1 3 [])).any fun p =>
        decide (winner p.1 = some (.routeflowAllocXid .forwardOspf6 3 []) ∧
          ∀ f ∈ firstHead p.1.ospf6Siblings, ∀ sr ∈ p.1.ospf6Siblings, ∀ a ∈ sr.msgsRcvdQueue.head?,
            a = f ∨ a.xid ≤ f.xid)) = true ∧
      (machine.step c (sendOspf6 1 3 [])).result.isSome = true :=
    exists_of_any (by decide)
  obtain ⟨⟨c', env⟩, hvote, hwin, hfirst⟩ := exists_of_any hvote
  obtain ⟨c'', hres⟩ := Option.isSome_iff_exists.mp hres
  exact ⟨c, c', c'', env, ⟨_, _, _, hc⟩, hvote, hwin, hres, (keepsVotes_iff hvote hwin hres).mpr hfirst⟩

/-- Two siblings vote on 3 while the third has sent 4 already; its message is thrown away. -/
theorem later_head_lost : ∃ c, voteAfter (State.sibRouterInit [⟨[]⟩] [] 3 .all)
      (connectAll 3 ++ [sendOspf6 0 3 [], sendOspf6 2 4 []]) (sendOspf6 1 3 []) = some c ∧
    winner c = some (.routeflowAllocXid .forwardOspf6 3 []) ∧
    (voteMajority promptEnv c).result = some c.voted ∧
    ¬ KeepsVotes (.routeflowAllocXid .forwardOspf6 3 []) c c.voted :=
  exists_of_any (by decide)

end Harry.Controller
