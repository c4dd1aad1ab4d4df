import Mathlib.Data.List.Nodup
import Mathlib.Data.List.Perm.Basic
import Harry.SiblingNeighbor

/-! `dr_election` of `ospf6_interface.c`. Among routers that stand for an office the preference is a maximum, by whether
they claim the office, by priority and by router id; so the order of the neighbors does not matter, as long as their
router ids differ. -/

namespace Harry.Sibling

open Harry.Base Harry.Rfp Prog

variable {ρ : Type}

section Better

variable {stands claims : Candidate → Bool} {a b c : Candidate} {x y z : Option Candidate} {l : List Candidate}

/-- What the preference goes by. -/
def Candidate.rank (claims : Candidate → Bool) (c : Candidate) : Nat :=
  (if claims c then 2 ^ 40 else 0) + c.priority.toNat * 2 ^ 32 + c.routerId.toNat

/-- The first one, unless the second one ranks higher. -/
def prefer (rank : Candidate → Nat) : Option Candidate → Option Candidate → Option Candidate
  | none, y => y
  | some a, none => some a
  | some a, some b => if rank a < rank b then some b else some a

theorem better_eq (stands claims : Candidate → Bool) (x y : Option Candidate) :
    better stands claims x y = prefer (Candidate.rank claims) (x.filter stands) (y.filter stands) := by
  rw [better]
  cases x.filter stands with
  | none => cases y.filter stands <;> rfl
  | some a =>
      cases y.filter stands with
      | none => rfl
      | some b =>
          have ha := a.priority.toNat_lt
          have hb := b.priority.toNat_lt
          have ha' := a.routerId.toNat_lt
          have hb' := b.routerId.toNat_lt
          simp only [prefer, Candidate.rank, UInt8.lt_iff_toNat_lt, UInt32.lt_iff_toNat_lt]
          by_cases hca : claims a = true <;> by_cases hcb : claims b = true <;> simp [hca, hcb]
          · split_ifs <;> first | rfl | omega
          · intro h
            omega
          · intro h
            omega
          · split_ifs <;> first | rfl | omega

theorem prefer_filter (stands : Candidate → Bool) (rank : Candidate → Nat) (x y : Option Candidate) :
    (prefer rank (x.filter stands) (y.filter stands)).filter stands =
      prefer rank (x.filter stands) (y.filter stands) := by
  cases hx : x.filter stands with
  | none =>
      change (y.filter stands).filter stands = y.filter stands
      rw [Option.filter_filter]
      simp
  | some a =>
      have ha := (Option.filter_eq_some_iff.mp hx).2
      cases hy : y.filter stands with
      | none =>
          change (some a).filter stands = some a
          simp [ha]
      | some b =>
          have hb := (Option.filter_eq_some_iff.mp hy).2
          rw [prefer]
          split_ifs <;> simp [ha, hb]

theorem prefer_none (rank : Candidate → Nat) (x : Option Candidate) : prefer rank x none = x := by
  cases x <;> rfl

theorem prefer_right_comm {rank : Candidate → Nat} (h : rank a ≠ rank b) (z : Option Candidate) :
    prefer rank (prefer rank z (some a)) (some b) = prefer rank (prefer rank z (some b)) (some a) := by
  cases z with
  | none =>
      simp only [prefer]
      split_ifs <;> first | rfl | omega
  | some c =>
      simp only [prefer]
      by_cases hca : rank c < rank a <;> by_cases hcb : rank c < rank b <;>
        simp only [hca, hcb, if_true, if_false] <;> split_ifs <;> first | rfl | omega

/-- Two candidates that rank differently may be looked at in any order. -/
theorem better_right_comm (h : a.rank claims ≠ b.rank claims) (z : Option Candidate) :
    better stands claims (better stands claims z (some a)) (some b) =
      better stands claims (better stands claims z (some b)) (some a) := by
  rw [better_eq, better_eq, prefer_filter, better_eq, better_eq, prefer_filter]
  simp only [Option.filter_some]
  by_cases ha : stands a = true <;> by_cases hb : stands b = true <;>
    simp only [ha, hb, if_true, if_false, prefer_none, prefer_right_comm h, Bool.false_eq_true]

/-- The best of a list. -/
def best (stands claims : Candidate → Bool) (l : List Candidate) : Option Candidate :=
  (l.map some).foldl (better stands claims) none

theorem rank_ne (hid : a.routerId ≠ b.routerId) : a.rank claims ≠ b.rank claims := by
  intro h
  have ha := a.priority.toNat_lt
  have hb := b.priority.toNat_lt
  have ha' := a.routerId.toNat_lt
  have hb' := b.routerId.toNat_lt
  refine hid (UInt32.toNat_inj.mp ?_)
  simp only [Candidate.rank] at h
  split at h <;> split at h <;> omega

/-- The best of a list is the same in any order. -/
theorem best_perm {l' : List Candidate} (hperm : l.Perm l') (hid : (l.map Candidate.routerId).Nodup) :
    best stands claims l = best stands claims l' := by
  refine (hperm.map some).foldl_eq' (fun x hx y hy z => ?_) none
  obtain ⟨a, ha, rfl⟩ := List.mem_map.mp hx
  obtain ⟨b, hb, rfl⟩ := List.mem_map.mp hy
  by_cases hab : a = b
  · rw [hab]
  · exact better_right_comm (rank_ne fun hids => hab (List.inj_on_of_nodup_map hid ha hb hids)) z

theorem better_snoc (l : List Candidate) (c : Candidate) :
    best stands claims (l ++ [c]) = better stands claims (best stands claims l) (some c) := by
  rw [best, List.map_append, List.foldl_append]
  rfl

/-- The best of a list stands for the office, and is in the list. -/
theorem mem_of_best (h : best stands claims l = some c) : c ∈ l ∧ stands c = true := by
  induction l using List.reverseRecOn with
  | nil => cases h
  | append_singleton l b ih =>
      rw [better_snoc, better_eq] at h
      have hmem : (best stands claims l).filter stands = some c ∨ (some b).filter stands = some c := by
        cases hx : (best stands claims l).filter stands with
        | none =>
            rw [hx] at h
            exact .inr h
        | some a =>
            cases hy : (some b).filter stands with
            | none =>
                rw [hx, hy] at h
                exact .inl h
            | some b' =>
                rw [hx, hy, prefer] at h
                split_ifs at h
                · exact .inr h
                · exact .inl h
      obtain hmem | hmem := hmem
      · obtain ⟨hbest, hstands⟩ := Option.filter_eq_some_iff.mp hmem
        exact ⟨List.mem_append_left _ (ih hbest).1, hstands⟩
      · obtain ⟨hb, hstands⟩ := Option.filter_eq_some_iff.mp hmem
        obtain rfl := Option.some.inj hb
        exact ⟨by simp, hstands⟩

/-- Where somebody stands for the office there is a best one. -/
theorem not_stands_of_best (h : best stands claims l = none) : ∀ c ∈ l, stands c = false := by
  induction l using List.reverseRecOn with
  | nil => exact fun c hc => (nomatch hc)
  | append_singleton l b ih =>
      rw [better_snoc, better_eq] at h
      cases hx : (best stands claims l).filter stands with
      | some a =>
          rw [hx] at h
          cases hy : (some b).filter stands with
          | none =>
              rw [hy] at h
              cases h
          | some b' =>
              rw [hy, prefer] at h
              split_ifs at h
      | none =>
          rw [hx] at h
          have hb : stands b = false := by
            have hnone : (some b).filter stands = none := h
            simpa using hnone
          have hl : best stands claims l = none := by
            cases hbest : best stands claims l with
            | none => rfl
            | some a =>
                rw [hbest, Option.filter_some, if_pos (mem_of_best hbest).2] at hx
                cases hx
          intro c hc
          rw [List.mem_append, List.mem_singleton] at hc
          obtain hc | rfl := hc
          · exact ih hl c hc
          · exact hb

end Better

def standsDr (c : Candidate) : Bool :=
  c.isEligible && c.claimsDr

def standsBdr (c : Candidate) : Bool :=
  c.isEligible && !c.claimsDr

/-- The pseudo neighbor `myself`. -/
def Interface.pseudoNeighbor (routerId : UInt32) (i : Interface) : Candidate :=
  ⟨true, .twoway, i.priority, routerId, i.drouter, i.bdrouter⟩

/-- The offices among neighbors and the router itself. -/
def officesOf (l : List Candidate) (myself : Candidate) : Option Candidate × Option Candidate :=
  ((best standsDr Candidate.claimsDr (l ++ [myself])).or (best standsBdr Candidate.claimsBdr (l ++ [myself])),
    best standsBdr Candidate.claimsBdr (l ++ [myself]))

def isMyself (c : Option Candidate) : Bool :=
  c.any (·.myself)

/-- The router itself as it counts in the second round. -/
def secondRound (myself : Candidate) (first : Option Candidate × Option Candidate) : Candidate :=
  if isMyself first.1 != myself.claimsDr || isMyself first.2 != myself.claimsBdr then
    { myself with drouter := routerIdOf first.1, bdrouter := routerIdOf first.2 }
  else myself

section Elect

variable {routerId : UInt32} {i : Interface} {l : List Candidate} {c m : Candidate}

theorem electWith_eq (l : List Candidate) (m : Candidate) :
    electWith (best standsDr Candidate.claimsDr l) (best standsBdr Candidate.claimsBdr l) m = officesOf l m := by
  rw [officesOf, better_snoc, better_snoc]
  rfl

theorem elect_eq (routerId : UInt32) (i : Interface) :
    elect routerId i = officesOf (i.neighborList.map Neighbor.candidate)
      (secondRound (i.pseudoNeighbor routerId)
        (officesOf (i.neighborList.map Neighbor.candidate) (i.pseudoNeighbor routerId))) := by
  have hbest : ∀ stands claims, (i.neighborList.map fun n => some n.candidate).foldl (better stands claims) none =
      best stands claims (i.neighborList.map Neighbor.candidate) := by
    intro stands claims
    rw [best, List.map_map]
    rfl
  have helect : ∀ (D B : Option Candidate) (m : Candidate),
      (let first := electWith D B m
        if isMyself first.1 != m.claimsDr || isMyself first.2 != m.claimsBdr then
          electWith D B { m with drouter := routerIdOf first.1, bdrouter := routerIdOf first.2 }
        else first) = electWith D B (secondRound m (electWith D B m)) := by
    intro D B m
    simp only [secondRound]
    split_ifs <;> rfl
  have hdr : (i.neighborList.map fun n => some n.candidate).foldl betterDrouter none =
      best standsDr Candidate.claimsDr (i.neighborList.map Neighbor.candidate) := hbest _ _
  have hbdr : (i.neighborList.map fun n => some n.candidate).foldl betterBdrouter none =
      best standsBdr Candidate.claimsBdr (i.neighborList.map Neighbor.candidate) := hbest _ _
  have hrounds := helect ((i.neighborList.map fun n => some n.candidate).foldl betterDrouter none)
    ((i.neighborList.map fun n => some n.candidate).foldl betterBdrouter none) (i.pseudoNeighbor routerId)
  change elect routerId i = _ at hrounds
  rw [hrounds, hdr, hbdr, electWith_eq, electWith_eq]

/-- Who holds an office is eligible. -/
theorem mem_of_officesOf (h : (officesOf l m).1 = some c ∨ (officesOf l m).2 = some c) :
    c ∈ l ++ [m] ∧ c.isEligible = true := by
  have hdr : best standsDr Candidate.claimsDr (l ++ [m]) = some c → c ∈ l ++ [m] ∧ c.isEligible = true := by
    intro h
    obtain ⟨hmem, hstands⟩ := mem_of_best h
    exact ⟨hmem, ((Bool.and_eq_true _ _).mp hstands).1⟩
  have hbdr : best standsBdr Candidate.claimsBdr (l ++ [m]) = some c → c ∈ l ++ [m] ∧ c.isEligible = true := by
    intro h
    obtain ⟨hmem, hstands⟩ := mem_of_best h
    exact ⟨hmem, ((Bool.and_eq_true _ _).mp hstands).1⟩
  obtain h | h := h
  · obtain h | ⟨-, h⟩ := Option.or_eq_some_iff.mp h
    · exact hdr h
    · exact hbdr h
  · exact hbdr h

/-- Nobody is elected only where nobody is eligible. -/
theorem not_eligible_of_officesOf (h : (officesOf l m).1 = none) : ∀ c ∈ l ++ [m], c.isEligible = false := by
  obtain ⟨hdr, hbdr⟩ := Option.or_eq_none_iff.mp h
  intro c hc
  have hnotDr := not_stands_of_best hdr c hc
  have hnotBdr := not_stands_of_best hbdr c hc
  rw [standsDr] at hnotDr
  rw [standsBdr] at hnotBdr
  cases hel : c.isEligible with
  | false => rfl
  | true =>
      rw [hel] at hnotDr hnotBdr
      cases hclaims : c.claimsDr <;> rw [hclaims] at hnotDr hnotBdr <;> contradiction

/-- The router itself is backup only if it does not claim to be the designated router. -/
theorem backup_of_officesOf (hl : ∀ c ∈ l, c.myself = false) (h : isMyself (officesOf l m).2 = true) :
    (officesOf l m).2 = some m ∧ standsBdr m = true := by
  obtain ⟨c, hc, hmyself⟩ := (Option.any_eq_true _ _).mp h
  obtain ⟨hmem, hstands⟩ := mem_of_best hc
  rw [List.mem_append, List.mem_singleton] at hmem
  obtain hmem | rfl := hmem
  · rw [hl c hmem] at hmyself
    cases hmyself
  · exact ⟨hc, hstands⟩

/-- Where the router itself holds both offices, nobody claims to be the designated router. -/
theorem both_of_officesOf (hl : ∀ c ∈ l, c.myself = false) (hboth : isMyself (officesOf l m).1 = true)
    (hbackup : isMyself (officesOf l m).2 = true) :
    best standsDr Candidate.claimsDr l = none ∧ m.claimsDr = false := by
  obtain ⟨hb, hstands⟩ := backup_of_officesOf hl hbackup
  have hclaims : m.claimsDr = false := by
    have := ((Bool.and_eq_true _ _).mp hstands).2
    simpa using this
  have hm : standsDr m = false := by rw [standsDr, hclaims, Bool.and_false]
  have hdr : best standsDr Candidate.claimsDr (l ++ [m]) = best standsDr Candidate.claimsDr l := by
    have hfilter : (best standsDr Candidate.claimsDr l).filter standsDr = best standsDr Candidate.claimsDr l := by
      cases hbest : best standsDr Candidate.claimsDr l with
      | none => rfl
      | some a => rw [Option.filter_some, if_pos (mem_of_best hbest).2]
    rw [better_snoc, better_eq, Option.filter_some, hm]
    exact (prefer_none _ _).trans hfilter
  refine ⟨?_, hclaims⟩
  cases hbest : best standsDr Candidate.claimsDr l with
  | none => rfl
  | some a =>
      rw [officesOf, hdr, hbest] at hboth
      have hmyself : a.myself = true := hboth
      rw [hl a (mem_of_best hbest).1] at hmyself
      cases hmyself

theorem officesOf_perm {l' : List Candidate} (hperm : l.Perm l') (hid : (l.map Candidate.routerId).Nodup)
    (m : Candidate) : officesOf l m = officesOf l' m := by
  simp only [officesOf, better_snoc, best_perm hperm hid]

/-- The router itself loses the second round where it has lost the first one: it claims no more than it did. -/
theorem not_both_secondRound (hl : ∀ c ∈ l, c.myself = false ∧ c.routerId ≠ m.routerId) (hm : m.myself = true) :
    ¬ (isMyself (officesOf l (secondRound m (officesOf l m))).1 = true ∧
      isMyself (officesOf l (secondRound m (officesOf l m))).2 = true) := by
  rintro ⟨hboth, hbackup⟩
  have hmyself : ∀ c ∈ l, c.myself = false := fun c hc => (hl c hc).1
  obtain ⟨hnone, hclaims⟩ := both_of_officesOf hmyself hboth hbackup
  obtain ⟨hbdr, hstands⟩ := backup_of_officesOf hmyself hbackup
  by_cases hchange : (isMyself (officesOf l m).1 != m.claimsDr || isMyself (officesOf l m).2 != m.claimsBdr) = true
  · simp only [secondRound, if_pos hchange] at hclaims hbdr hstands
    -- the router has not been designated router in the first round
    have hfirst : routerIdOf (officesOf l m).1 ≠ m.routerId := by
      intro heq
      rw [Candidate.claimsDr, heq] at hclaims
      simp at hclaims
    have hnotMe : ∀ c, (officesOf l m).1 = some c → c ≠ m := by
      rintro c hc rfl
      exact hfirst (by rw [hc]; rfl)
    have hel : m.isEligible = true := ((Bool.and_eq_true _ _).mp hstands).1
    have hmDr : m.claimsDr = false := by
      by_contra hclaims'
      have hstandsDr : standsDr m = true := by rw [standsDr, hel, (Bool.not_eq_false _).mp hclaims']; rfl
      have hdr : best standsDr Candidate.claimsDr (l ++ [m]) = some m := by
        rw [better_snoc, better_eq, hnone, Option.filter_some, if_pos hstandsDr]
        rfl
      exact hnotMe m (by rw [officesOf, hdr]; rfl) rfl
    have hmBdr : standsBdr m = true := by rw [standsBdr, hel, hmDr]; rfl
    have hdr : best standsDr Candidate.claimsDr (l ++ [m]) = none := by
      have hstandsDr : standsDr m = false := by rw [standsDr, hmDr, Bool.and_false]
      rw [better_snoc, better_eq, hnone, Option.filter_some, hstandsDr]
      rfl
    -- a neighbor has become backup in the first round, and then designated router
    have hbest : ∃ x, best standsBdr Candidate.claimsBdr l = some x ∧ standsBdr x = true ∧ x ∈ l := by
      cases hx : best standsBdr Candidate.claimsBdr l with
      | none =>
          have hme : best standsBdr Candidate.claimsBdr (l ++ [m]) = some m := by
            rw [better_snoc, better_eq, hx, Option.filter_some, if_pos hmBdr]
            rfl
          exact absurd rfl (hnotMe m (by rw [officesOf, hdr, hme]; rfl))
      | some x => exact ⟨x, rfl, (mem_of_best hx).2, (mem_of_best hx).1⟩
    obtain ⟨x, hx, hxs, hxl⟩ := hbest
    have hprefer : ∀ m' : Candidate, standsBdr m' = true → best standsBdr Candidate.claimsBdr (l ++ [m']) =
        if x.rank Candidate.claimsBdr < m'.rank Candidate.claimsBdr then some m' else some x := by
      intro m' hm'
      rw [better_snoc, better_eq, hx, Option.filter_some, Option.filter_some, if_pos hxs, if_pos hm']
      rfl
    have hlost : ¬ x.rank Candidate.claimsBdr < m.rank Candidate.claimsBdr := by
      intro hlt
      have hme := hprefer m hmBdr
      rw [if_pos hlt] at hme
      exact hnotMe m (by rw [officesOf, hdr, hme]; rfl) rfl
    have hbackup₁ : (officesOf l m).2 = some x := by
      have hme := hprefer m hmBdr
      rw [if_neg hlost] at hme
      exact hme
    have hid : (routerIdOf (officesOf l m).2 == m.routerId) = false := by
      rw [hbackup₁]
      simpa [routerIdOf] using (hl x hxl).2
    have hwon := hprefer _ hstands
    change best standsBdr Candidate.claimsBdr _ = _ at hbdr
    rw [hbdr] at hwon
    split_ifs at hwon with hlt
    · refine hlost (Nat.lt_of_lt_of_le hlt ?_)
      simp only [Candidate.rank, Candidate.claimsBdr, hid, Bool.false_eq_true, if_false]
      omega
    · have hme := congrArg Candidate.myself (Option.some.inj hwon)
      rw [hmyself x hxl] at hme
      simp [hm] at hme
  · -- nothing changes for the router itself
    simp only [secondRound, if_neg hchange] at hclaims hboth
    rw [Bool.or_eq_true, not_or] at hchange
    rw [hboth, hclaims] at hchange
    exact hchange.1 rfl

end Elect

/-! ### The function -/

section Run

variable {s t : State ρ} {h g : Mem} {oi : Nat} {i : Interface} {l : List Neighbor}

/-- The interface after an election. -/
def Interface.elected (i : Interface) (e : Option Candidate × Option Candidate) : Interface :=
  { i with drouter := routerIdOf e.1, bdrouter := routerIdOf e.2 }

/-- The state that goes with the offices. -/
def nextState (e : Option Candidate × Option Candidate) : InterfaceState :=
  if isMyself e.1 then .dr else if isMyself e.2 then .bdr else .drother

theorem leaves_adjOk (oi : Nat) (c : Prop) [Decidable c] (l : List Neighbor) :
    Leaves (fun s : State ρ => s.interfaces)
      (when c (l.forM fun n => when (¬ n.state < .twoway) (threadAddEvent (.adjOk ⟨oi, n.routerId⟩))) : M ρ Unit) :=
  .ite (.forM fun _ _ => .ite (.modify fun _ => rfl) (.pure _)) (.pure _)

/-- What `dr_election` returns and what it leaves on the interface. -/
theorem drElection_eq (hi : s.interfaces[oi]? = some i) :
    (drElection oi s h).1 = nextState (elect s.routerId i) ∧
      (drElection oi s h).2.1.interfaces[oi]? = some (i.elected (elect s.routerId i)) := by
  have hthe : (theInterface oi : M ρ Interface) s h = (i, s, h) := by
    simp only [theInterface, bind, observe, hi]
    rfl
  have hobserve : (observe : M ρ (State ρ)) s h = (s, s, h) := rfl
  rw [drElection, run_bind hthe, run_bind hobserve]
  have hleaves := leaves_adjOk oi (i.drouter ≠ routerIdOf (elect s.routerId i).1 ∨
    i.bdrouter ≠ routerIdOf (elect s.routerId i).2) i.neighborList s h
  generalize hwhen : (when (i.drouter ≠ routerIdOf (elect s.routerId i).1 ∨
    i.bdrouter ≠ routerIdOf (elect s.routerId i).2)
      (i.neighborList.forM fun n => when (¬ n.state < .twoway) (threadAddEvent (.adjOk ⟨oi, n.routerId⟩))) :
        M ρ Unit) s h = r at hleaves
  obtain ⟨u, q, k⟩ := r
  change q.interfaces = s.interfaces at hleaves
  rw [run_bind hwhen]
  refine ⟨rfl, ?_⟩
  change (q.interfaces.modify oi _)[oi]? = _
  rw [hleaves, List.getElem?_modify_eq, hi]
  rfl

/-- The routers of an election. -/
def Interface.candidates (routerId : UInt32) (i : Interface) : List Candidate :=
  i.neighborList.map Neighbor.candidate ++ [i.pseudoNeighbor routerId]

theorem isEligible_secondRound (m : Candidate) (e : Option Candidate × Option Candidate) :
    (secondRound m e).isEligible = m.isEligible ∧ (secondRound m e).routerId = m.routerId ∧
      (secondRound m e).myself = m.myself := by
  rw [secondRound]
  split <;> exact ⟨rfl, rfl, rfl⟩

theorem elect_perm {routerId : UInt32} (hperm : i.neighborList.Perm l)
    (hnd : (i.neighborList.map Neighbor.routerId).Nodup) :
    elect routerId { i with neighborList := l } = elect routerId i := by
  have hids : ((i.neighborList.map Neighbor.candidate).map Candidate.routerId).Nodup := by
    rw [List.map_map]
    exact hnd
  have hoffices := officesOf_perm (hperm.map Neighbor.candidate) hids
  rw [elect_eq, elect_eq, hoffices, hoffices]
  rfl

/-- Who is elected is one of the routers that are eligible. -/
theorem mem_of_elect {routerId : UInt32} {c : Candidate} (h : (elect routerId i).1 = some c) :
    ∃ d ∈ i.candidates routerId, d.isEligible = true ∧ d.routerId = c.routerId := by
  rw [elect_eq] at h
  obtain ⟨hmem, hel⟩ := mem_of_officesOf (.inl h)
  rw [List.mem_append, List.mem_singleton] at hmem
  obtain hmem | rfl := hmem
  · exact ⟨c, List.mem_append_left _ hmem, hel, rfl⟩
  · obtain ⟨hel', hid, -⟩ := isEligible_secondRound (i.pseudoNeighbor routerId)
      (officesOf (i.neighborList.map Neighbor.candidate) (i.pseudoNeighbor routerId))
    exact ⟨_, List.mem_append_right _ (List.mem_singleton.mpr rfl), hel'.symm.trans hel, hid.symm⟩

theorem not_eligible_of_elect {routerId : UInt32} (h : (elect routerId i).1 = none) :
    ∀ c ∈ i.candidates routerId, c.isEligible = false := by
  rw [elect_eq] at h
  have hnone := not_eligible_of_officesOf h
  intro c hc
  rw [Interface.candidates, List.mem_append, List.mem_singleton] at hc
  obtain hc | rfl := hc
  · exact hnone c (List.mem_append_left _ hc)
  · rw [← (isEligible_secondRound (i.pseudoNeighbor routerId) _).1]
    exact hnone _ (List.mem_append_right _ (List.mem_singleton.mpr rfl))

theorem not_both_of_elect {routerId : UInt32} (hown : ∀ n ∈ i.neighborList, n.routerId ≠ routerId) :
    ¬ (isMyself (elect routerId i).1 = true ∧ isMyself (elect routerId i).2 = true) := by
  rw [elect_eq]
  refine not_both_secondRound (fun c hc => ?_) rfl
  obtain ⟨n, hn, rfl⟩ := List.mem_map.mp hc
  exact ⟨rfl, hown n hn⟩

/-- The router id in an office is the router's own only where it holds it. -/
theorem isMyself_of_routerId {routerId : UInt32} {c : Option Candidate} (hzero : routerId ≠ 0)
    (hown : ∀ n ∈ i.neighborList, n.routerId ≠ routerId)
    (hmem : ∀ a, c = some a → a.myself = true ∨ ∃ n ∈ i.neighborList, n.candidate = a)
    (hid : routerIdOf c = routerId) : isMyself c = true := by
  cases c with
  | none => exact absurd hid.symm hzero
  | some a =>
      obtain hmyself | ⟨n, hn, rfl⟩ := hmem a rfl
      · exact hmyself
      · exact absurd hid (hown n hn)

theorem offices_of_elect {routerId : UInt32} {c : Candidate}
    (h : (elect routerId i).1 = some c ∨ (elect routerId i).2 = some c) :
    c.myself = true ∨ ∃ n ∈ i.neighborList, n.candidate = c := by
  rw [elect_eq] at h
  have hmem := (mem_of_officesOf h).1
  rw [List.mem_append, List.mem_singleton] at hmem
  obtain hmem | rfl := hmem
  · obtain ⟨n, hn, rfl⟩ := List.mem_map.mp hmem
    exact .inr ⟨n, hn, rfl⟩
  · exact .inl (isEligible_secondRound (i.pseudoNeighbor routerId) _).2.2

/-- The election comes out the same for every order of the neighbors. Nobody is designated router only if nobody is
eligible, or the one that is has the router id zero; and the router itself never holds both offices. -/
theorem drElection_order (hs : s.interfaces[oi]? = some i) (ht : t.interfaces[oi]? = some { i with neighborList := l })
    (hid : t.routerId = s.routerId) (hperm : i.neighborList.Perm l)
    (hnd : (i.neighborList.map Neighbor.routerId).Nodup) (hown : ∀ n ∈ i.neighborList, n.routerId ≠ s.routerId) :
    (drElection oi t g).1 = (drElection oi s h).1 ∧
      ∃ i' : Interface, (drElection oi s h).2.1.interfaces[oi]? = some i' ∧
        (drElection oi t g).2.1.interfaces[oi]? = some { i' with neighborList := l } ∧
        (i'.drouter = 0 → (∀ c ∈ i.candidates s.routerId, c.isEligible = false) ∨
          ∃ c ∈ i.candidates s.routerId, c.isEligible = true ∧ c.routerId = 0) ∧
        ¬ (isMyself (elect s.routerId i).1 = true ∧ isMyself (elect s.routerId i).2 = true) ∧
        (s.routerId ≠ 0 → ¬ (i'.drouter = s.routerId ∧ i'.bdrouter = s.routerId)) := by
  obtain ⟨hstate, hinterface⟩ := drElection_eq (h := h) hs
  obtain ⟨hstate', hinterface'⟩ := drElection_eq (h := g) ht
  rw [hid, elect_perm hperm hnd] at hstate' hinterface'
  refine ⟨hstate'.trans hstate.symm, _, hinterface, hinterface', fun hzero => ?_, not_both_of_elect hown,
    fun hzero hboth => not_both_of_elect hown ⟨?_, ?_⟩⟩
  · cases he : (elect s.routerId i).1 with
    | none => exact .inl (not_eligible_of_elect he)
    | some c =>
        obtain ⟨d, hd, hel, hdc⟩ := mem_of_elect he
        have hc : c.routerId = 0 := by
          rw [Interface.elected, he] at hzero
          exact hzero
        exact .inr ⟨d, hd, hel, hdc.trans hc⟩
  · exact isMyself_of_routerId hzero hown (fun a ha => offices_of_elect (.inl ha)) hboth.1
  · exact isMyself_of_routerId hzero hown (fun a ha => offices_of_elect (.inr ha)) hboth.2

/-- A sibling with one interface. -/
def onInterface (routerId : UInt32) (i : Interface) : State Unit where
  routerId := routerId
  areaList := []
  interfaces := [i]
  ctrlClients := []
  lsdb := []
  restartMode := false
  restartedFirstEgressNotSent := false
  externalCount := 0
  debugMsg := false
  events := []
  timers := []
  routes := ()
  outside := default
  sent := []
  fault := false

/-- A neighbor in 2-Way that knows of no designated router. -/
def twowayNeighbor (routerId : UInt32) (priority : UInt8) : Neighbor :=
  { Neighbor.create routerId with state := .twoway, priority := priority }

/-- A router with two neighbors. -/
def withNeighbors (l : List Neighbor) : Interface :=
  { (default : Interface) with priority := 1, neighborList := l }

theorem drElection_order_three : ∃ i' : Interface,
    (drElection 0 (onInterface 5 (withNeighbors [twowayNeighbor 1 3, twowayNeighbor 2 3]))
      default).2.1.interfaces[0]? = some i' ∧
    (drElection 0 (onInterface 5 (withNeighbors [twowayNeighbor 2 3, twowayNeighbor 1 3]))
      default).2.1.interfaces[0]? =
        some { i' with neighborList := [twowayNeighbor 2 3, twowayNeighbor 1 3] } := by
  have hs : (onInterface 5 (withNeighbors [twowayNeighbor 1 3, twowayNeighbor 2 3])).interfaces[0]? =
      some (withNeighbors [twowayNeighbor 1 3, twowayNeighbor 2 3]) := rfl
  have ht : (onInterface 5 (withNeighbors [twowayNeighbor 2 3, twowayNeighbor 1 3])).interfaces[0]? =
      some { withNeighbors [twowayNeighbor 1 3, twowayNeighbor 2 3] with
        neighborList := [twowayNeighbor 2 3, twowayNeighbor 1 3] } := rfl
  obtain ⟨-, i', hi, hi', -⟩ := drElection_order (h := default) (g := default) hs ht rfl
    (List.Perm.swap _ _ _) (by decide) (by decide)
  exact ⟨i', hi, hi'⟩

/-- A neighbor with the router id zero is elected, and the interface has no designated router, so to say. -/
theorem not_drElection_order : ∃ i' : Interface,
    (drElection 0 (onInterface 5 (withNeighbors [twowayNeighbor 0 3])) default).2.1.interfaces[0]? =
        some i' ∧
      i'.drouter = 0 ∧ (twowayNeighbor 0 3).candidate.isEligible = true :=
  ⟨_, rfl, by decide, by decide⟩

end Run

end Harry.Sibling
