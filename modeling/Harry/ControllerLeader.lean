import Harry.ControllerStep

/-! Who leads, as the controller keeps it: the flag `is_leader` in the slot of a sibling, which outlives the connection,
and the pointer `leader_sibling`, which is only ever set. What the siblings themselves say is kept beside the
controller here: the siblings whose last announcement on their present connection was that they lead. -/

open Harry.Base Harry.Rfp

namespace Harry.Controller

/-- The controller and the siblings that claim to lead. -/
structure Claiming where
  controller : State
  claims : List SibRef
  deriving DecidableEq

/-- The announcement that an event brings, and of which sibling. -/
def announces (c : State) : Event → Option (SibRef × Bool)
  | .recv k msg env =>
    if msg.type = some .redistributeLeaderElect ∧ (c.sib k).any (·.state ≠ .disconnected) = true then
      some (k, decide (msg.data.getD 8 env.spare = 1))
    else none
  | _ => none

/-- A sibling stops claiming when it says so or its connection is lost. -/
def claimsAfter (s : Claiming) (e : Event) : List SibRef :=
  match announces s.controller e, e with
  | some (k, isLeader), _ => if isLeader then k :: s.claims.filter (· ≠ k) else s.claims.filter (· ≠ k)
  | none, .destroy k => s.claims.filter (· ≠ k)
  | none, _ => s.claims

def claimingMachine : Machine Claiming Event Output where
  step s e := do
    let c ← machine.step s.controller e
    pure ⟨c, claimsAfter s e⟩

/-- At most one sibling claims to lead. -/
def OneClaims (s : Claiming) : Prop := s.claims.length ≤ 1

instance : DecidablePred OneClaims := fun s => inferInstanceAs (Decidable (s.claims.length ≤ 1))

/-- A connected sibling whose slot has the flag. -/
def leads (sr : SibRouter) : Bool := decide (sr.state ≠ .disconnected) && sr.isLeader

/-- At most one connected OSPF6 sibling has the flag, and a connected sibling at `leader_sibling` has it. -/
structure SingleLeader (c : State) : Prop where
  one : ∀ i j sr sr', c.sib (.ospf6 i) = some sr → c.sib (.ospf6 j) = some sr' → leads sr = true → leads sr' = true → i = j
  pointed : ∀ k sr, c.leaderSibling = some k → c.sib k = some sr → sr.state ≠ .disconnected → sr.isLeader = true

/-- The slot that the next OSPF6 connection reuses. -/
def reusable (c : State) : Option Nat := c.ospf6Siblings.findIdx? (·.state = .disconnected)

def SibRef.isOspf6 : SibRef → Bool
  | .ospf6 _ => true
  | .bgp _ => false

def Event.isAcceptOspf6 : Event → Bool
  | .acceptOspf6 _ => true
  | _ => false

/-- No slot is reused whose flag is set, while another OSPF6 sibling has the flag; none announces itself while another
has a flag that it has not announced itself; and the one at `leader_sibling` does not announce that it does not lead. -/
def KeepsLeader (s : Claiming) (e : Event) : Prop :=
  (e.isAcceptOspf6 = true → ∀ i ∈ reusable s.controller, (s.controller.ospf6Siblings[i]?).any (·.isLeader) = true →
    ∀ sr ∈ s.controller.ospf6Siblings, leads sr = false) ∧
  ∀ p ∈ announces s.controller e,
    (p.2 = true ∧ p.1.isOspf6 = true → ∀ j < s.controller.ospf6Siblings.length, .ospf6 j ≠ p.1 →
      (s.controller.ospf6Siblings[j]?).any leads = true → .ospf6 j ∈ s.claims) ∧
    (p.2 = false → s.controller.leaderSibling ≠ some p.1)

instance (s : Claiming) (e : Event) : Decidable (KeepsLeader s e) :=
  inferInstanceAs (Decidable (
    (e.isAcceptOspf6 = true → ∀ i ∈ reusable s.controller, (s.controller.ospf6Siblings[i]?).any (·.isLeader) = true →
      ∀ sr ∈ s.controller.ospf6Siblings, leads sr = false) ∧
    ∀ p ∈ announces s.controller e,
      (p.2 = true ∧ p.1.isOspf6 = true → ∀ j < s.controller.ospf6Siblings.length, .ospf6 j ≠ p.1 →
        (s.controller.ospf6Siblings[j]?).any leads = true → .ospf6 j ∈ s.claims) ∧
      (p.2 = false → s.controller.leaderSibling ≠ some p.1)))

section Flags

variable {c c' : State} {e : Event} {k : SibRef} {sr : SibRouter}

/-- Slots keep their flags, and whether they are connected; new slots have no flag. -/
structure SameFlags (c c' : State) : Prop where
  kept : ∀ k old, c.sib k = some old → ∃ new, c'.sib k = some new ∧ new.isLeader = old.isLeader ∧
    (new.state = .disconnected ↔ old.state = .disconnected)
  fresh : ∀ k new, c.sib k = none → c'.sib k = some new → new.isLeader = false
  leader : c'.leaderSibling = c.leaderSibling

theorem sameFlags_refl (c : State) : SameFlags c c := by
  refine ⟨fun _ old hold => ⟨old, hold, rfl, Iff.rfl⟩, fun k new hnone hnew => ?_, rfl⟩
  rw [hnone] at hnew
  cases hnew

theorem sameFlags_setSib {new : SibRouter} (hsr : c.sib k = some sr) (hflag : new.isLeader = sr.isLeader)
    (hstate : new.state = .disconnected ↔ sr.state = .disconnected) : SameFlags c (c.setSib k new) := by
  refine ⟨fun k' old hold => ?_, fun k' new' hnone hnew => ?_, State.setSib_leaderSibling c k new⟩
  · rw [State.sib_setSib hsr]
    split_ifs with hk
    · subst hk
      rw [hsr] at hold
      cases hold
      exact ⟨new, rfl, hflag, hstate⟩
    · exact ⟨old, hold, rfl, Iff.rfl⟩
  · rw [State.sib_setSib hsr] at hnew
    split_ifs at hnew with hk
    · subst hk
      rw [hsr] at hnone
      cases hnone
    · rw [hnone] at hnew
      cases hnew

theorem sameFlags_addRouting {d : Int} (h : SameFlags c c') : SameFlags c (c'.addRouting d) := by
  refine ⟨fun k old hold => ?_, fun k new hnone hnew => ?_, h.leader⟩
  · rw [State.sib_addRouting]
    exact h.kept k old hold
  · rw [State.sib_addRouting] at hnew
    exact h.fresh k new hnone hnew

theorem SameFlags.voted (h : SameFlags c c') : SameFlags c c'.voted := by
  refine ⟨fun k old hold => ?_, fun k new hnone hnew => ?_, h.leader⟩
  · obtain ⟨new, hnew, hflag, hstate⟩ := h.kept k old hold
    rw [sib_voted]
    cases k with
    | ospf6 i => exact ⟨bumpEgressXid (popHead new), by rw [hnew]; rfl, hflag, hstate⟩
    | bgp i => exact ⟨new, hnew, hflag, hstate⟩
  · rw [sib_voted] at hnew
    cases k with
    | ospf6 i =>
        obtain ⟨new', hnew', rfl⟩ := Option.map_eq_some_iff.mp hnew
        exact h.fresh _ new' hnone hnew'
    | bgp i => exact h.fresh _ new hnone hnew

/-- What a message other than an announcement does. -/
theorem Handled.sameFlags {msg : Rfpbuf} (h : Handled k msg sr c c') (hsr : c.sib k = some sr)
    (htype : msg.type ≠ some .redistributeLeaderElect) : SameFlags c c' := by
  cases h with
  | ignored => exact sameFlags_refl c
  | @moved new hxid hnext =>
      rw [State.setSib_addRouting]
      obtain ⟨hnew, -, hold⟩ := requestNext_ne hnext
      exact sameFlags_addRouting (sameFlags_setSib hsr rfl ⟨fun h => absurd h hnew, fun h => absurd h hold⟩)
  | bumped htype' hxid hnext => exact sameFlags_setSib hsr rfl Iff.rfl
  | queued hsib hxid =>
      have hstate := egressSib_state hsib
      have hflag := egressSib_isLeader hsib
      exact sameFlags_setSib hsr hflag (by rw [appendMsgToRcvdQueue, hstate])
  | rejected hsib hxid =>
      exact sameFlags_setSib hsr (egressSib_isLeader hsib) (by rw [egressSib_state hsib])
  | acked => exact sameFlags_setSib hsr rfl Iff.rfl
  | leader htype' b => exact absurd htype' htype

/-- The slot that is reused keeps its flag. -/
theorem result_acceptOspf6 (raw : SibRouter) {i : Nat} (hi : reusable c = some i) :
    ∃ sr, c.sib (.ospf6 i) = some sr ∧ sr.state = .disconnected ∧ (c.Ok → (machine.step c (.acceptOspf6 raw)).result =
      some (c.setSib (.ospf6 i) sr.reused)) ∧ ∀ c', (machine.step c (.acceptOspf6 raw)).result = some c' →
        c' = c.setSib (.ospf6 i) sr.reused := by
  obtain ⟨hlt, hp, -⟩ := List.findIdx?_eq_some_iff_getElem.mp hi
  have hsr : c.ospf6Siblings[i]? = some c.ospf6Siblings[i] := List.getElem?_eq_getElem hlt
  have hfind : c.ospf6Siblings.findIdx? (·.state = .disconnected) = some i := hi
  have hstep : machine.step c (.acceptOspf6 raw) =
      sibRouterReuse c.ospf6Siblings[i] c >>= fun p => pure (p.2.setSib (.ospf6 i) p.1) := by
    simp only [machine, step, sibListenerAcceptOspf6, hfind, hsr, Exec.deref_some_bind]
  refine ⟨c.ospf6Siblings[i], hsr, of_decide_eq_true hp, fun hok => ?_, fun c' h => ?_⟩
  · rw [hstep, sibRouterReuse]
    simp only [Exec.result_bind, result_stateTransition_of_le (Nat.le_of_eq hok.length_eq.symm), Option.bind_some,
      Exec.result_pure, routingDelta_connecting, addRouting_zero]
    rfl
  · rw [hstep] at h
    obtain ⟨p, hreuse, h⟩ := Exec.result_bind_eq_some.mp h
    obtain ⟨q, htrans, hp⟩ := Exec.result_bind_eq_some.mp hreuse
    cases result_stateTransition htrans
    cases hp
    cases h
    rw [routingDelta_connecting, addRouting_zero]
    rfl

/-- A connection that is lost leaves the flag in its slot. -/
theorem result_destroy (hstep : (machine.step c (.destroy k)).result = some c') :
    c' = c ∨ ∃ sr d new, c.sib k = some sr ∧ new.state = .disconnected ∧ new.isLeader = sr.isLeader ∧
      c' = (c.setSib k new).addRouting d := by
  rcases step_cases hstep with ⟨hc', -⟩ | ⟨c1, env, a, hvote, -⟩
  · cases hc' with
    | ignored => exact Or.inl rfl
    | @destroyed _ sr hsr hstate =>
        exact Or.inr ⟨sr, _, { sr with
          state := .disconnected, waitingOnFirstEgressMsg := false, msgsRcvdQueue := [] }, hsr, rfl, rfl,
            State.setSib_addRouting c _ k _⟩
  · cases hvote

/-- The announcement of a sibling. -/
theorem step_announces {isLeader : Bool} (h : announces c e = some (k, isLeader)) :
    ∃ sr, c.sib k = some sr ∧ sr.state ≠ .disconnected ∧ machine.step c e = (do
      Exec.require (if isLeader then some k else c.leaderSibling).isSome
      pure { c.setSib k { sr with isLeader := isLeader } with
        leaderSibling := if isLeader then some k else c.leaderSibling }) := by
  cases e with
  | recv k' msg env =>
      simp only [announces, Option.ite_none_right_eq_some, Option.some.injEq, Prod.mk.injEq] at h
      obtain ⟨⟨htype, hconn⟩, rfl, rfl⟩ := h
      obtain ⟨sr, hsr, hstate⟩ := (Option.any_eq_true _ _).mp hconn
      rw [decide_eq_true_eq] at hstate
      refine ⟨sr, hsr, hstate, ?_⟩
      simp only [machine, step, hsr, hstate, if_false, sibRouterProcessPacket, Exec.deref_some_bind, htype,
        redistributeLeaderElect]
  | _ => cases h

/-- Every other event leaves the flags as they are. -/
theorem sameFlags_of_step (hno : announces c e = none) (hopen : e.isAcceptOspf6 = true → reusable c = none)
    (hdestroy : ∀ k, e ≠ .destroy k) (hstep : (machine.step c e).result = some c') : SameFlags c c' := by
  by_cases hdead : ∃ k msg env, e = .recv k msg env ∧ ∀ sr, c.sib k = some sr → sr.state = .disconnected
  · obtain ⟨k, msg, env, rfl, hdisc⟩ := hdead
    have hsame : c' = c := by
      simp only [machine, step] at hstep
      split at hstep
      · next sr hsr =>
          rw [if_pos (hdisc sr hsr)] at hstep
          exact (Option.some.inj hstep).symm
      · exact (Option.some.inj hstep).symm
    rw [hsame]
    exact sameFlags_refl c
  · refine step_invariant (fun c1 hc1 => ?_) (fun c1 h => h.voted) hstep
    cases hc1 with
    | ignored => exact sameFlags_refl c
    | reused hsr hstate =>
        have hnone := List.findIdx?_eq_none_iff.mp (hopen rfl) _ (List.mem_of_getElem? hsr)
        exact absurd hstate (of_decide_eq_false hnone)
    | openedOspf6 hlt hconn =>
        refine ⟨fun k old hold => ?_, fun k new hnone hnew => ?_, rfl⟩
        · refine ⟨old, ?_, rfl, Iff.rfl⟩
          cases k with
          | ospf6 i => exact (List.getElem?_append_left (List.getElem?_eq_some_iff.mp hold).1).trans hold
          | bgp i => exact hold
        · cases k with
          | ospf6 i =>
              rcases getElem?_concat_eq_some hnew with hold | ⟨-, rfl⟩
              · cases hnone.symm.trans hold
              · rfl
          | bgp i => cases hnone.symm.trans hnew
    | openedBgp =>
        refine ⟨fun k old hold => ?_, fun k new hnone hnew => ?_, rfl⟩
        · refine ⟨old, ?_, rfl, Iff.rfl⟩
          cases k with
          | ospf6 i => exact hold
          | bgp i => exact (List.getElem?_append_left (List.getElem?_eq_some_iff.mp hold).1).trans hold
        · cases k with
          | ospf6 i => cases hnone.symm.trans hnew
          | bgp i =>
              rcases getElem?_concat_eq_some hnew with hold | ⟨-, rfl⟩
              · cases hnone.symm.trans hold
              · rfl
    | started hsr hstate => exact sameFlags_setSib hsr rfl (by simp [hstate])
    | @handled k msg env sr c1 hsr hstate h =>
        refine h.sameFlags hsr fun htype => ?_
        simp [announces, htype, hsr, hstate] at hno
    | destroyed hsr hstate => exact absurd rfl (hdestroy _)
    | @ingress msg xid =>
        have hsent : ∀ (old : SibRouter), (old.ingressSent xid).isLeader = old.isLeader ∧
            (old.ingressSent xid).state = old.state := by
          intro old
          unfold SibRouter.ingressSent
          split_ifs <;> exact ⟨rfl, rfl⟩
        refine ⟨fun k old hold => ?_, fun k new hnone hnew => ?_, rfl⟩
        · cases k with
          | ospf6 i =>
              refine ⟨old.ingressSent xid, ?_, (hsent old).1, by rw [(hsent old).2]⟩
              exact (List.getElem?_map ..).trans (congrArg (Option.map _) hold)
          | bgp i => exact ⟨old, hold, rfl, Iff.rfl⟩
        · cases k with
          | ospf6 i =>
              rw [State.sib_ospf6, List.getElem?_map, Option.map_eq_some_iff] at hnew
              obtain ⟨old, hold, rfl⟩ := hnew
              cases hnone.symm.trans hold
          | bgp i => cases hnone.symm.trans hnew
    | routerSide =>
        refine ⟨fun k old hold => ⟨old, ?_, rfl, Iff.rfl⟩, fun k new hnone hnew => ?_, rfl⟩
        · cases k <;> exact hold
        · have hold : c.sib k = some new := by cases k <;> exact hnew
          cases hnone.symm.trans hold

end Flags

/-! ### Runs -/

/-- What a run keeps: beside the single leader, the claims are those of siblings that lead, and the slot at
`leader_sibling` has the flag also when its sibling is gone. -/
structure LeaderKept (s : Claiming) : Prop where
  one : ∀ i j sr sr', s.controller.sib (.ospf6 i) = some sr → s.controller.sib (.ospf6 j) = some sr' →
    leads sr = true → leads sr' = true → i = j
  ok : s.controller.Ok
  claims : ∀ k ∈ s.claims, ∃ sr, s.controller.sib k = some sr ∧ leads sr = true
  nodup : s.claims.Nodup
  flagged : ∀ k, s.controller.leaderSibling = some k → ∃ sr, s.controller.sib k = some sr ∧ sr.isLeader = true

section Kept

variable {s t : Claiming} {c' : State} {e : Event} {k : SibRef}

theorem LeaderKept.single (h : LeaderKept s) : SingleLeader s.controller := by
  refine ⟨h.one, fun k sr hleader hsr _ => ?_⟩
  obtain ⟨sr', hsr', hflag⟩ := h.flagged k hleader
  cases hsr.symm.trans hsr'
  exact hflag

theorem leads_iff {sr : SibRouter} : leads sr = true ↔ sr.state ≠ .disconnected ∧ sr.isLeader = true := by
  rw [leads, Bool.and_eq_true, decide_eq_true_eq]

theorem LeaderKept.sameFlags (h : LeaderKept s) (hsame : SameFlags s.controller c') (hok : c'.Ok) {claims : List SibRef}
    (hclaims : claims.Sublist s.claims) : LeaderKept ⟨c', claims⟩ := by
  have hback : ∀ {k sr}, c'.sib k = some sr → leads sr = true →
      ∃ old, s.controller.sib k = some old ∧ leads old = true := by
    intro k sr hsr hlead
    cases hold : s.controller.sib k with
    | none =>
        rw [leads_iff, hsame.fresh k sr hold hsr] at hlead
        cases hlead.2
    | some old =>
        obtain ⟨new, hnew, hflag, hstate⟩ := hsame.kept k old hold
        cases hsr.symm.trans hnew
        refine ⟨old, rfl, leads_iff.mpr ?_⟩
        rw [leads_iff] at hlead
        exact ⟨fun hdisc => hlead.1 (hstate.mpr hdisc), hflag ▸ hlead.2⟩
  refine ⟨fun i j sr sr' hsr hsr' hlead hlead' => ?_, hok, fun k hk => ?_, hclaims.nodup h.nodup, fun k hleader => ?_⟩
  · obtain ⟨old, hold, hlead⟩ := hback hsr hlead
    obtain ⟨old', hold', hlead'⟩ := hback hsr' hlead'
    exact h.one i j old old' hold hold' hlead hlead'
  · obtain ⟨old, hold, hlead⟩ := h.claims k (hclaims.subset hk)
    obtain ⟨new, hnew, hflag, hstate⟩ := hsame.kept k old hold
    rw [leads_iff] at hlead
    exact ⟨new, hnew, leads_iff.mpr ⟨fun hdisc => hlead.1 (hstate.mp hdisc), hflag ▸ hlead.2⟩⟩
  · obtain ⟨old, hold, hflag⟩ := h.flagged k (hsame.leader ▸ hleader)
    obtain ⟨new, hnew, hflag', -⟩ := hsame.kept k old hold
    exact ⟨new, hnew, hflag'.trans hflag⟩

/-- What a write to one slot keeps, if the sibling there does not lead afterwards or nobody else does. -/
theorem LeaderKept.setSib (h : LeaderKept s) {old new : SibRouter} (hold : s.controller.sib k = some old)
    (hflag : new.isLeader = old.isLeader) (hok : (s.controller.setSib k new).Ok) {claims : List SibRef}
    (hclaims : claims.Sublist s.claims) (hk : k ∈ claims → leads new = true)
    (hone : leads new = true → ∀ sr ∈ s.controller.ospf6Siblings, leads sr = false) :
    LeaderKept ⟨s.controller.setSib k new, claims⟩ := by
  have hsib : ∀ k', (s.controller.setSib k new).sib k' = if k' = k then some new else s.controller.sib k' :=
    State.sib_setSib hold new
  have hother : ∀ {i sr}, (s.controller.setSib k new).sib (.ospf6 i) = some sr → leads sr = true →
      (.ospf6 i = k ∧ leads new = true) ∨ .ospf6 i ≠ k ∧ s.controller.sib (.ospf6 i) = some sr := by
    intro i sr hsr hlead
    rw [hsib] at hsr
    split_ifs at hsr with hik
    · cases hsr
      exact Or.inl ⟨hik, hlead⟩
    · exact Or.inr ⟨hik, hsr⟩
  refine ⟨fun i j sr sr' hsr hsr' hlead hlead' => ?_, hok, fun k' hk' => ?_, hclaims.nodup h.nodup, fun k' hleader => ?_⟩
  · rcases hother hsr hlead with ⟨hik, hnew⟩ | ⟨hik, hi⟩
    · rcases hother hsr' hlead' with ⟨hjk, -⟩ | ⟨-, hj⟩
      · exact SibRef.ospf6.inj (hik.trans hjk.symm)
      · rw [hone hnew sr' (List.mem_of_getElem? hj)] at hlead'
        cases hlead'
    · rcases hother hsr' hlead' with ⟨-, hnew⟩ | ⟨-, hj⟩
      · rw [hone hnew sr (List.mem_of_getElem? hi)] at hlead
        cases hlead
      · exact h.one i j sr sr' hi hj hlead hlead'
  · rw [hsib]
    split_ifs with hk'k
    · exact ⟨new, rfl, hk (hk'k ▸ hk')⟩
    · exact h.claims k' (hclaims.subset hk')
  · obtain ⟨sr, hsr, hset⟩ := h.flagged k' (State.setSib_leaderSibling s.controller k new ▸ hleader)
    rw [hsib]
    split_ifs with hk'k
    · subst hk'k
      cases hold.symm.trans hsr
      exact ⟨new, rfl, hflag.trans hset⟩
    · exact ⟨sr, hsr, hset⟩

/-- The controller after an announcement. -/
def announced (c : State) (k : SibRef) (sr : SibRouter) (isLeader : Bool) : State :=
  { c.setSib k { sr with isLeader := isLeader } with leaderSibling := if isLeader then some k else c.leaderSibling }

theorem sib_announced {c : State} {sr : SibRouter} (hsr : c.sib k = some sr) (isLeader : Bool) (k' : SibRef) :
    (announced c k sr isLeader).sib k' = if k' = k then some { sr with isLeader := isLeader } else c.sib k' := by
  have hsib : (announced c k sr isLeader).sib k' = (c.setSib k { sr with isLeader := isLeader }).sib k' := by
    cases k' <;> rfl
  rw [hsib, State.sib_setSib hsr]

theorem claimsAfter_announces {isLeader : Bool} (h : announces s.controller e = some (k, isLeader)) :
    claimsAfter s e = if isLeader then k :: s.claims.filter (· ≠ k) else s.claims.filter (· ≠ k) := by
  cases e with
  | recv k' msg env => simp only [claimsAfter, h]
  | _ => cases h

/-- An announcement that another one leads leaves at most that sibling with the flag. -/
theorem LeaderKept.announced_false (h : LeaderKept s) {sr : SibRouter} (hsr : s.controller.sib k = some sr)
    (hok : (announced s.controller k sr false).Ok) (hleader : s.controller.leaderSibling ≠ some k) :
    LeaderKept ⟨announced s.controller k sr false, s.claims.filter (· ≠ k)⟩ := by
  have hother : ∀ {i new}, (announced s.controller k sr false).sib (.ospf6 i) = some new → leads new = true →
      s.controller.sib (.ospf6 i) = some new := by
    intro i new hnew hlead
    rw [sib_announced hsr] at hnew
    split_ifs at hnew with hik
    · cases hnew
      cases (leads_iff.mp hlead).2
    · exact hnew
  refine ⟨fun i j new new' hnew hnew' hlead hlead' => ?_, hok, fun k' hk' => ?_, h.nodup.filter _, fun k' hk' => ?_⟩
  · exact h.one i j new new' (hother hnew hlead) (hother hnew' hlead') hlead hlead'
  · rw [List.mem_filter, decide_eq_true_eq] at hk'
    rw [sib_announced hsr, if_neg hk'.2]
    exact h.claims k' hk'.1
  · have hk'' : s.controller.leaderSibling = some k' := hk'
    have hne : k' ≠ k := fun heq => hleader (heq ▸ hk'')
    rw [sib_announced hsr, if_neg hne]
    exact h.flagged k' hk''

/-- An announcement of the only sibling that claims to lead, when nobody else has a flag that is left over. -/
theorem LeaderKept.announced_true (h : LeaderKept s) {sr : SibRouter} (hsr : s.controller.sib k = some sr)
    (hstate : sr.state ≠ .disconnected) (hok : (announced s.controller k sr true).Ok)
    (hfilter : s.claims.filter (· ≠ k) = [])
    (hothers : k.isOspf6 = true → ∀ j sr', .ospf6 j ≠ k → s.controller.sib (.ospf6 j) = some sr' → leads sr' = true →
      .ospf6 j ∈ s.claims) :
    LeaderKept ⟨announced s.controller k sr true, k :: s.claims.filter (· ≠ k)⟩ := by
  have halone : ∀ {i j new}, .ospf6 i = k → .ospf6 j ≠ k → s.controller.sib (.ospf6 j) = some new →
      leads new = true → False := by
    rintro i j new rfl hjk hnew hlead
    have hmem : .ospf6 j ∈ s.claims.filter (· ≠ .ospf6 i) :=
      List.mem_filter.mpr ⟨hothers rfl j new hjk hnew hlead, decide_eq_true hjk⟩
    rw [hfilter] at hmem
    cases hmem
  refine ⟨fun i j new new' hnew hnew' hlead hlead' => ?_, hok, fun k' hk' => ?_, ?_, fun k' hk' => ?_⟩
  · rw [sib_announced hsr] at hnew hnew'
    split_ifs at hnew with hik
    · split_ifs at hnew' with hjk
      · exact SibRef.ospf6.inj (hik.trans hjk.symm)
      · exact absurd (halone hik hjk hnew' hlead') not_false
    · split_ifs at hnew' with hjk
      · exact absurd (halone hjk hik hnew hlead) not_false
      · exact h.one i j new new' hnew hnew' hlead hlead'
  · rw [hfilter, List.mem_singleton] at hk'
    subst hk'
    rw [sib_announced hsr, if_pos rfl]
    exact ⟨_, rfl, leads_iff.mpr ⟨hstate, rfl⟩⟩
  · rw [hfilter]
    exact List.nodup_singleton k
  · have hk'' : k = k' := Option.some.inj hk'
    subst hk''
    rw [sib_announced hsr, if_pos rfl]
    exact ⟨_, rfl, rfl⟩

/-- The step lemma. -/
theorem LeaderKept.step (h : LeaderKept s) (hone : OneClaims t) (he : KeepsLeader s e)
    (hstep : (claimingMachine.step s e).result = some t) : LeaderKept t := by
  obtain ⟨c', hc', ht⟩ := Exec.result_bind_eq_some.mp hstep
  cases ht
  have hrun : (machine.run s.controller [e]).result = some c' := by
    rw [machine.run_cons, Exec.result_bind, hc']
    rfl
  have hok : c'.Ok := h.ok.run hrun
  cases hann : announces s.controller e with
  | some p =>
      obtain ⟨k, isLeader⟩ := p
      obtain ⟨sr, hsr, hstate, hrun⟩ := step_announces hann
      obtain ⟨hclaim, hresign⟩ := he.2 _ hann
      rw [hrun] at hc'
      obtain ⟨_, -, hc'⟩ := Exec.result_bind_eq_some.mp hc'
      have hc'' : announced s.controller k sr isLeader = c' := Option.some.inj hc'
      subst hc''
      rw [OneClaims, claimsAfter_announces hann] at hone
      rw [claimsAfter_announces hann]
      cases isLeader with
      | false => exact h.announced_false hsr hok (hresign rfl)
      | true =>
          have hfilter : s.claims.filter (· ≠ k) = [] := by
            simp only [if_true, List.length_cons] at hone
            exact List.length_eq_zero_iff.mp (by omega)
          refine h.announced_true hsr hstate hok hfilter fun hospf6 j sr' hj hsr' hlead => ?_
          have hlt := (List.getElem?_eq_some_iff.mp hsr').1
          refine hclaim ⟨rfl, hospf6⟩ j hlt hj ?_
          rw [← State.sib_ospf6, hsr']
          exact hlead
  | none =>
      by_cases hdestroy : ∃ k, e = .destroy k
      · obtain ⟨k, rfl⟩ := hdestroy
        have hclaims : claimsAfter s (.destroy k) = s.claims.filter (· ≠ k) := rfl
        rw [hclaims]
        rcases result_destroy hc' with rfl | ⟨sr, d, new, hsr, hdisc, hflag, rfl⟩
        · exact h.sameFlags (sameFlags_refl _) hok List.filter_sublist
        · have hlead : leads new = false := by simp [leads, hdisc]
          have hok' : (s.controller.setSib k new).Ok :=
            ⟨fun k' sr' hsr' => hok.sib_ok k' sr' (by rwa [State.sib_addRouting]), hok.length_eq⟩
          have hset : LeaderKept ⟨s.controller.setSib k new, s.claims.filter (· ≠ k)⟩ :=
            h.setSib hsr hflag hok' List.filter_sublist (fun hk => by simp at hk) fun hnew => by
              rw [hlead] at hnew
              cases hnew
          exact hset.sameFlags (sameFlags_addRouting (sameFlags_refl _)) hok (List.Sublist.refl _)
      · have hclaims : claimsAfter s e = s.claims := by
          unfold claimsAfter
          rw [hann]
          cases e with
          | destroy k => exact absurd ⟨k, rfl⟩ hdestroy
          | _ => rfl
        rw [hclaims]
        by_cases hopen : e.isAcceptOspf6 = true → reusable s.controller = none
        · exact h.sameFlags (sameFlags_of_step hann hopen (fun k hk => hdestroy ⟨k, hk⟩) hc') hok (List.Sublist.refl _)
        · rw [Classical.not_imp] at hopen
          obtain ⟨hopen, hsome⟩ := hopen
          obtain ⟨i, hi⟩ := Option.ne_none_iff_exists'.mp hsome
          cases e with
          | acceptOspf6 raw =>
              obtain ⟨sr, hsr, hdisc, -, hres⟩ := result_acceptOspf6 raw hi
              cases hres c' hc'
              have hflag : sr.reused.isLeader = sr.isLeader := rfl
              refine h.setSib hsr hflag hok (List.Sublist.refl _) (fun hk => ?_) fun hlead => ?_
              · obtain ⟨old, hold, hlead⟩ := h.claims _ hk
                cases hsr.symm.trans hold
                exact absurd hdisc (leads_iff.mp hlead).1
              · refine he.1 rfl i hi ?_
                rw [← State.sib_ospf6, hsr]
                exact (leads_iff.mp hlead).2
          | _ => cases hopen

/-- An event that the condition excludes ends in a state without a single leader. -/
theorem LeaderKept.needs (h : LeaderKept s) (he : ¬ KeepsLeader s e) :
    ∃ t, (claimingMachine.step s e).result = some t ∧ ¬ SingleLeader t.controller := by
  have hlift : ∀ {c'}, (machine.step s.controller e).result = some c' → ¬ SingleLeader c' →
      ∃ t, (claimingMachine.step s e).result = some t ∧ ¬ SingleLeader t.controller := by
    intro c' hc' hnot
    exact ⟨⟨c', claimsAfter s e⟩, Exec.result_bind_eq_some.mpr ⟨c', hc', rfl⟩, hnot⟩
  rw [KeepsLeader, not_and_or] at he
  rcases he with he | he
  · push Not at he
    obtain ⟨hopen, i, hi, hflag, sr', hmem, hlead'⟩ := he
    rw [ne_eq, Bool.not_eq_false] at hlead'
    obtain ⟨j, hj⟩ := List.mem_iff_getElem?.mp hmem
    cases e with
    | acceptOspf6 raw =>
        obtain ⟨sr, hsr, hdisc, hres, -⟩ := result_acceptOspf6 raw hi
        refine hlift (hres h.ok) fun hsingle => ?_
        rw [← State.sib_ospf6, hsr] at hflag
        have hji : .ospf6 j ≠ SibRef.ospf6 i := by
          intro heq
          cases heq
          cases hsr.symm.trans hj
          exact (leads_iff.mp hlead').1 hdisc
        have hij := hsingle.one i j sr.reused sr' (by rw [State.sib_setSib hsr, if_pos rfl])
          (by rw [State.sib_setSib hsr, if_neg hji]; exact hj) (leads_iff.mpr ⟨nofun, hflag⟩) hlead'
        exact hji (congrArg SibRef.ospf6 hij.symm)
    | _ => cases hopen
  · push Not at he
    obtain ⟨⟨k, isLeader⟩, hann, he⟩ := he
    obtain ⟨sr, hsr, hstate, hrun⟩ := step_announces hann
    have hresult : (if isLeader then some k else s.controller.leaderSibling).isSome = true →
        (machine.step s.controller e).result = some (announced s.controller k sr isLeader) := by
      intro hsome
      rw [hrun, Exec.result_bind_eq_some]
      exact ⟨(), Exec.result_require_eq_some.mpr hsome, rfl⟩
    by_cases hclaim : isLeader = true ∧ k.isOspf6 = true → ∀ j < s.controller.ospf6Siblings.length, .ospf6 j ≠ k →
        (s.controller.ospf6Siblings[j]?).any leads = true → .ospf6 j ∈ s.claims
    · -- the one at `leader_sibling` announces that it does not lead
      obtain ⟨rfl, hleader⟩ := he hclaim
      have hleader' : s.controller.leaderSibling = some k := hleader
      refine hlift (hresult (by rw [hleader']; rfl)) fun hsingle => ?_
      have hflag := hsingle.pointed k { sr with isLeader := false } hleader'
        (by rw [sib_announced hsr, if_pos rfl]) hstate
      cases hflag
    · push Not at hclaim
      obtain ⟨⟨rfl, hospf6⟩, j, hj, hjk, hlead, hnot⟩ := hclaim
      refine hlift (hresult rfl) fun hsingle => ?_
      obtain ⟨sr', hsr', hlead'⟩ := (Option.any_eq_true _ _).mp hlead
      cases k with
      | ospf6 i =>
          have hij := hsingle.one i j { sr with isLeader := true } sr' (by rw [sib_announced hsr, if_pos rfl])
            (by rw [sib_announced hsr, if_neg hjk]; exact hsr') (leads_iff.mpr ⟨hstate, rfl⟩) hlead'
          exact hjk (congrArg SibRef.ospf6 hij.symm)
      | bgp i => cases hospf6

end Kept

/-- In a run in which at most one sibling at a time claims to lead, the controller has a single leader all the time
exactly if every step keeps it. -/
theorem singleLeader_iff (routers : List Router) (rib : List RibRoute) (numSibs : Int) (voterType : VoterType)
    {es : List Event} (hone : claimingMachine.Throughout OneClaims ⟨.sibRouterInit routers rib numSibs voterType, []⟩ es) :
    claimingMachine.Throughout (fun s => SingleLeader s.controller) ⟨.sibRouterInit routers rib numSibs voterType, []⟩ es ↔
      claimingMachine.AllSteps KeepsLeader ⟨.sibRouterInit routers rib numSibs voterType, []⟩ es := by
  refine claimingMachine.throughout_iff_allSteps (J := LeaderKept) (fun s => LeaderKept.single)
    (fun s e t h hone he hstep => h.step hone he hstep) (fun s e h he => h.needs he) ?_ hone
  refine ⟨fun i j sr sr' hsr => ?_, ok_sibRouterInit routers rib numSibs voterType, nofun, List.nodup_nil, nofun⟩
  simp [State.sibRouterInit] at hsr

/-- The first sibling leads; the other one is lost and comes back. -/
def followerComesBack : List Event :=
  connectAll 2 ++ [announceLeader 0, .destroy (.ospf6 1), .acceptOspf6 zeroedSib]

theorem followerComesBack_singleLeader :
    claimingMachine.Throughout (fun s => SingleLeader s.controller) ⟨.sibRouterInit [⟨[]⟩] [] 2 .all, []⟩
      followerComesBack :=
  (singleLeader_iff [⟨[]⟩] [] 2 .all (by decide)).mpr (by decide)

/-- The first sibling leads until it is lost and the other one takes over. Then it comes back. -/
def leaderComesBack : List Event :=
  connectAll 2 ++ [announceLeader 0, .destroy (.ospf6 0), announceLeader 1, .acceptOspf6 zeroedSib]

/-- Its slot still has the flag, so there are two. -/
theorem leaderComesBack_not_singleLeader :
    claimingMachine.Throughout OneClaims ⟨.sibRouterInit [⟨[]⟩] [] 2 .all, []⟩ leaderComesBack ∧
    ∃ t, (claimingMachine.run ⟨.sibRouterInit [⟨[]⟩] [] 2 .all, []⟩ leaderComesBack).result = some t ∧
      ¬ SingleLeader t.controller := by
  refine ⟨by decide, ?_⟩
  obtain ⟨t, ht, hfirst, hsecond⟩ := exists_of_any
    (p := fun t => (t.controller.sib (.ospf6 0)).any leads = true ∧ (t.controller.sib (.ospf6 1)).any leads = true)
    (o := (claimingMachine.run ⟨.sibRouterInit [⟨[]⟩] [] 2 .all, []⟩ leaderComesBack).result) (by decide)
  obtain ⟨sr, hsr, hlead⟩ := (Option.any_eq_true _ _).mp hfirst
  obtain ⟨sr', hsr', hlead'⟩ := (Option.any_eq_true _ _).mp hsecond
  refine ⟨t, ht, fun hsingle => ?_⟩
  cases hsingle.one 0 1 sr sr' hsr hsr' hlead hlead'

end Harry.Controller
