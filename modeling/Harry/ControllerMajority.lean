import Harry.ControllerPacket

/-! What `majority_have_msg_rcvd` tests. Its loop steps over the sibling after each one that is ready, and what it
compares in the end is the index it has come to: the number of all siblings, or one more where the loop has stepped
over the end of the table. -/

open Harry.Base Harry.Rfp

namespace Harry.Controller

/-- The number of ready siblings at the end of the table, back to the last one that is not ready. -/
def trailingReady (l : List SibRouter) : Nat := (l.reverse.takeWhile hasMsgRcvd).length

theorem trailingReady_le (l : List SibRouter) : trailingReady l ≤ l.length := by
  calc trailingReady l ≤ l.reverse.length := (List.takeWhile_sublist _).length_le
    _ = l.length := List.length_reverse

/-- A sibling in front counts only if all the others are ready. -/
theorem trailingReady_cons (sr : SibRouter) (l : List SibRouter) :
    trailingReady (sr :: l) =
      if trailingReady l = l.length then l.length + (hasMsgRcvd sr).toNat else trailingReady l := by
  unfold trailingReady
  rw [List.reverse_cons, List.takeWhile_append, List.length_reverse]
  split_ifs with hall
  · rw [List.length_append, List.length_reverse]
    cases h : hasMsgRcvd sr <;> simp [h]
  · rfl

/-- The loop ends at the end of the table or one after it: it comes to the first sibling of the last stretch of
ready ones, whether or not it has stepped over the one before, and takes that stretch in twos. -/
theorem msgRcvdLoop_eq (l : List SibRouter) (i : Nat) :
    msgRcvdLoop l i = i + l.length + trailingReady l % 2 := by
  fun_induction msgRcvdLoop l i with
  | case1 i => rfl
  | case2 sr i hready => simp [trailingReady, hready]
  | case3 sr i hready => simp [trailingReady, hready]
  | case4 sr sr' rest i hready ih =>
      have hle := trailingReady_le rest
      rw [ih, trailingReady_cons, trailingReady_cons, hready]
      cases hasMsgRcvd sr' <;> simp only [List.length_cons, Bool.toNat_true, Bool.toNat_false] <;>
        split_ifs <;> omega
  | case5 sr sr' rest i hready ih =>
      have hle := trailingReady_le (sr' :: rest)
      rw [Bool.not_eq_true] at hready
      rw [ih, trailingReady_cons sr, hready]
      simp only [List.length_cons, Bool.toNat_false] at hle ⊢
      split_ifs <;> omega

/-- What the test comes to. -/
theorem majorityHaveMsgRcvd_eq {c : State} (h : 0 < numHosts c) :
    majorityHaveMsgRcvd c = true ↔
      numHosts c < 2 * (c.ospf6Siblings.length + trailingReady c.ospf6Siblings % 2 : Nat) := by
  have hhalf : majorityHaveMsgRcvd c =
      aboveHalf (c.ospf6Siblings.length + trailingReady c.ospf6Siblings % 2) (numHosts c) := by
    rw [majorityHaveMsgRcvd, msgRcvdLoop_eq, Nat.zero_add]
  rw [hhalf]
  constructor
  · intro hmaj
    exact (lt_of_aboveHalf hmaj).1
  · intro hlt
    exact aboveHalf_of_lt h.le hlt

/-- The test is right where more than half of the hosts are ready, and otherwise only where the table itself, with
one more for an odd stretch of ready siblings at its end, has no more entries than half of the hosts. -/
theorem majorityHaveMsgRcvd_right_iff {c : State} (h : 0 < numHosts c) :
    (majorityHaveMsgRcvd c = true ↔ numHosts c < 2 * (c.ospf6Siblings.countP hasMsgRcvd : Nat)) ↔
      (numHosts c < 2 * (c.ospf6Siblings.countP hasMsgRcvd : Nat) ∨
        2 * (c.ospf6Siblings.length + trailingReady c.ospf6Siblings % 2 : Nat) ≤ numHosts c) := by
  have hcount : c.ospf6Siblings.countP hasMsgRcvd ≤ c.ospf6Siblings.length := List.countP_le_length
  rw [majorityHaveMsgRcvd_eq h]
  constructor
  · intro hright
    rcases lt_or_ge (numHosts c) (2 * (c.ospf6Siblings.length + trailingReady c.ospf6Siblings % 2 : Nat)) with hlt | hge
    · exact Or.inl (hright.mp hlt)
    · exact Or.inr hge
  · rintro (hmost | hfew)
    · exact ⟨fun _ => hmost, fun _ => by omega⟩
    · exact ⟨fun hlt => by omega, fun hmost => by omega⟩

/-- Three siblings are up and two of them have sent a message: the test is right. -/
theorem majorityHaveMsgRcvd_right_of_two : ∃ c,
    (machine.run (State.sibRouterInit [⟨[]⟩] [] 3 .all) (connectAll 3 ++
      [announceLeader 0, sendOspf6 0 3 [], sendOspf6 1 3 [1]])).result = some c ∧
    (majorityHaveMsgRcvd c = true ↔ numHosts c < 2 * (c.ospf6Siblings.countP hasMsgRcvd : Nat)) := by
  obtain ⟨c, hc, hpos, hmost⟩ := exists_of_any
    (p := fun c => 0 < numHosts c ∧ numHosts c < 2 * (c.ospf6Siblings.countP hasMsgRcvd : Nat))
    (o := (machine.run (State.sibRouterInit [⟨[]⟩] [] 3 .all) (connectAll 3 ++
      [announceLeader 0, sendOspf6 0 3 [], sendOspf6 1 3 [1]])).result) (by decide)
  exact ⟨c, hc, (majorityHaveMsgRcvd_right_iff hpos).mpr (Or.inl hmost)⟩

/-- Three siblings are up and one of them has sent a message: the test says that a majority has. -/
theorem one_of_three_counts_as_majority : ∃ c,
    (machine.run (State.sibRouterInit [⟨[]⟩] [] 3 .all) (connectAll 3 ++
      [announceLeader 0, sendOspf6 0 3 []])).result = some c ∧
    0 < numHosts c ∧
    ¬ (majorityHaveMsgRcvd c = true ↔ numHosts c < 2 * (c.ospf6Siblings.countP hasMsgRcvd : Nat)) := by
  obtain ⟨c, hc, hpos, hmaj, hfew⟩ := exists_of_any
    (p := fun c => 0 < numHosts c ∧ majorityHaveMsgRcvd c = true ∧
      ¬ numHosts c < 2 * (c.ospf6Siblings.countP hasMsgRcvd : Nat))
    (o := (machine.run (State.sibRouterInit [⟨[]⟩] [] 3 .all) (connectAll 3 ++
      [announceLeader 0, sendOspf6 0 3 []])).result) (by decide)
  exact ⟨c, hc, hpos, fun hright => hfew (hright.mp hmaj)⟩

end Harry.Controller
