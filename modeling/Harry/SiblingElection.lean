import Mathlib.Algebra.Ring.Nat
import Mathlib.Data.Finset.Max
import Mathlib.Data.Fintype.Basic
import Harry.BaseExec

/-! Leader election. A replica that elects compares its own timestamp with those of all sibling addresses, and breaks a
tie by the ids it knows; then it sends its id to every sibling, and whether it leads. What comes from a sibling is kept
in the list of the receiver, if the sibling is in that list. -/

namespace Harry.Election

open Harry.Base

/-- `OSPF6_NUM_SIBS`. -/
def ospf6NumSibs : Nat := 9

instance : NeZero ospf6NumSibs := ⟨by decide⟩

/-- The `sibling` structure. An address is the number of its replica. -/
structure Sibling (n : Nat) where
  addr : Fin n
  leader : Bool
  idValid : Bool
  id : UInt16
  deriving DecidableEq

/-- How far the sibling control of a replica has come: leader election has not been triggered, has been triggered, is
complete. -/
inductive Phase where
  | leadElectWait
  | leadElectStart
  | leadElectCompl
  deriving DecidableEq

/-- `ospf6_replica`: the own sibling structure and the list of the others. -/
structure Replica (n : Nat) where
  own : Sibling n
  replicas : List (Sibling n)
  phase : Phase

/-- The `RFPT_REPLICA_EX` message of `src` to `dst`. -/
structure ReplicaEx (n : Nat) where
  src : Fin n
  dst : Fin n
  id : UInt16
  leader : Bool
  deriving DecidableEq

/-- What is given from outside: the timestamps in the addresses, the ids of the configuration files, the sibling
addresses each replica sees at its start and at its election, and the replica debug flag. -/
structure Group (n : Nat) where
  ts : Fin n → UInt64
  id : Fin n → UInt16
  initialAddrs : Fin n → List (Fin n)
  siblingAddrs : Fin n → List (Fin n)
  debugReplica : Bool
  id_injective : Function.Injective id
  nodup_initialAddrs : ∀ i, (initialAddrs i).Nodup
  nodup_siblingAddrs : ∀ i, (siblingAddrs i).Nodup
  mem_siblingAddrs : ∀ i j, j ∈ siblingAddrs i

variable {n : Nat}

/-- `ospf6_create_replica`. -/
def createReplica (addr : Fin n) : Sibling n := ⟨addr, false, false, 0⟩

/-- `find_replica_from_addr`. -/
def findReplicaFromAddr (addr : Fin n) (replicas : List (Sibling n)) : Option (Sibling n) :=
  replicas.find? fun s => s.addr = addr

/-- `ospf6_update_replicas`: the sibling of the address, which is created if it is not in the list. -/
def updateReplicas (replicas : List (Sibling n)) (addr : Fin n) : Sibling n × List (Sibling n) :=
  match findReplicaFromAddr addr replicas with
  | some s => (s, replicas)
  | none => (createReplica addr, replicas ++ [createReplica addr])

/-- The sibling that `find_replica_from_addr` returns, changed in place. -/
def changeReplica (f : Sibling n → Sibling n) (addr : Fin n) : List (Sibling n) → List (Sibling n)
  | [] => []
  | s :: ss => if s.addr = addr then f s :: ss else s :: changeReplica f addr ss

namespace Replica

variable (r : Replica n)

/-- `ospf6_replica_all_id_valid`. -/
def allIdValid : Bool := r.replicas.all Sibling.idValid

/-- `ospf6_replica_get_leader_id`, which exits if no sibling is marked as the leader. -/
def getLeaderId : Option UInt16 := (r.replicas.find? Sibling.leader).map Sibling.id

/-- `sibling_ctrl_update_state` with `SCG_LEAD_ELECT_COMPL`. -/
def updateState : Replica n := { r with phase := .leadElectCompl }

end Replica

namespace Group

variable (g : Group n)

/-- One address of the loop of `ospf6_leader_elect`: whether the replica is still the oldest, and the list. -/
def compare (own : Sibling n) (acc : Bool × List (Sibling n)) (addr : Fin n) : Bool × List (Sibling n) :=
  if addr = own.addr then acc
  else
    let oldest := acc.1 && !decide (g.ts addr < g.ts own.addr)
    let (s, replicas) := updateReplicas acc.2 addr
    (oldest && !decide (g.ts addr = g.ts own.addr ∧ s.idValid ∧ s.id < own.id), replicas)

/-- `ospf6_leader_elect` up to `send_ids`. Without the debug flag the replica does not become the leader and does not
cease to be. -/
def leaderElect (r : Replica n) : Replica n :=
  let (oldest, replicas) := (g.siblingAddrs r.own.addr).foldl (g.compare r.own) (true, r.replicas)
  let own := if g.debugReplica then { r.own with leader := oldest } else r.own
  let r := { r with own := own, replicas := replicas }
  if r.allIdValid then r.updateState else r

/-- `fill_id`. -/
def fillId (r : Replica n) (addr : Fin n) (leader : Bool) (id : UInt16) : Replica n :=
  let r :=
    match findReplicaFromAddr addr r.replicas with
    | some _ =>
        -- with more than one leader, the id is the tiebreaker
        let both := leader && r.own.leader
        let mark := if both && decide (r.own.id < id) then false else leader
        let ownLeader := if both && !decide (r.own.id < id) then false else r.own.leader
        { r with
          own := { r.own with leader := ownLeader }
          replicas := changeReplica (fun s => { s with id := id, idValid := true, leader := mark }) addr r.replicas }
    | none =>
        if g.debugReplica then
          { r with replicas := r.replicas ++ [{ createReplica addr with leader := leader, id := id }] }
        else r
  if r.allIdValid && decide (r.phase = .leadElectStart) then r.updateState else r

end Group

/-- The replicas and the messages between them. -/
structure State (n : Nat) where
  replica : Fin n → Replica n
  inFlight : List (ReplicaEx n)

/-- `sibling_ctrl_redistribute_leader_elect`. -/
structure Redistribute (n : Nat) where
  replica : Fin n
  leader : Bool
  deriving DecidableEq

inductive Event (n : Nat) where
  /-- Leader election is triggered at a replica. -/
  | elect (i : Fin n)
  /-- A message comes to its receiver. -/
  | deliver (m : ReplicaEx n)
  deriving DecidableEq

namespace State

variable (g : Group n) (s : State n)

def setReplica (i : Fin n) (r : Replica n) : State n :=
  { s with replica := fun j => if j = i then r else s.replica j }

/-- `send_ids`. -/
def sendIds (i : Fin n) : Exec (Redistribute n) (State n) := do
  let r := s.replica i
  Exec.emit ⟨i, r.own.leader⟩
  pure { s with inFlight := s.inFlight ++ r.replicas.map fun b => ⟨i, b.addr, r.own.id, r.own.leader⟩ }

/-- A replica elects once. It does not if it does not see `OSPF6_NUM_SIBS` addresses. -/
def elect (i : Fin n) : Exec (Redistribute n) (State n) :=
  let r := s.replica i
  if r.phase = .leadElectWait then
    let r := { r with phase := .leadElectStart }
    if (g.siblingAddrs i).length = n then (s.setReplica i (g.leaderElect r)).sendIds i
    else pure (s.setReplica i r)
  else pure s

/-- `ospf6_replica_read`. -/
def deliver (m : ReplicaEx n) : Exec (Redistribute n) (State n) :=
  if m ∈ s.inFlight then
    pure { s.setReplica m.dst (g.fillId (s.replica m.dst) m.src m.leader m.id) with inFlight := s.inFlight.erase m }
  else pure s

def step : Event n → Exec (Redistribute n) (State n)
  | .elect i => s.elect g i
  | .deliver m => s.deliver g m

end State

/-- The replicas of a group, in any interleaving of their elections and of the deliveries. -/
def machine (g : Group n) : Machine (State n) (Event n) (Redistribute n) := ⟨State.step g⟩

namespace Group

variable (g : Group n)

/-- `ospf6_replicas_init` and the `id` command. -/
def replicasInit (i : Fin n) : Replica n where
  own := ⟨i, false, true, g.id i⟩
  replicas := ((g.initialAddrs i).filter fun j => j ≠ i).map createReplica
  phase := .leadElectWait

def start : State n := ⟨g.replicasInit, []⟩

end Group

/-- All have elected and every message has been delivered. -/
def Complete (s : State n) : Prop := (∀ i, (s.replica i).phase ≠ .leadElectWait) ∧ s.inFlight = []

instance (s : State n) : Decidable (Complete s) :=
  inferInstanceAs (Decidable ((∀ i, (s.replica i).phase ≠ .leadElectWait) ∧ s.inFlight = []))

/-- All ids are known, one replica leads, and the others know which. -/
def Agreement (s : State n) : Prop :=
  (∀ i, (s.replica i).allIdValid = true) ∧
  ∃ l, (∀ i, (s.replica i).own.leader = true ↔ i = l) ∧
    (∀ i, i ≠ l → (∀ b ∈ (s.replica i).replicas, b.leader = true ↔ b.addr = l) ∧
      (s.replica i).getLeaderId = some (s.replica l).own.id) ∧
    ∀ b ∈ (s.replica l).replicas, b.leader = false

/-- Nobody is older, and nobody of the same age has a smaller id. -/
def IsOldest (g : Group n) (l : Fin n) : Prop :=
  ∀ j, j ≠ l → g.ts l < g.ts j ∨ g.ts l = g.ts j ∧ g.id l < g.id j

/-- A message finds its sender in the list of the receiver. A replica that is not the oldest can tell when it elects:
somebody has an older address, or it has already got a smaller id from a replica of its own age. -/
def StepInOrder (g : Group n) (s : State n) : Event n → Prop
  | .elect i => (s.replica i).phase = .leadElectWait →
      (∃ j, g.ts j < g.ts i) ∨ (∀ j, g.ts j = g.ts i → g.id i ≤ g.id j) ∨
      ∃ b ∈ (s.replica i).replicas, b.idValid = true ∧ g.ts b.addr = g.ts i ∧ b.id < g.id i
  | .deliver m => m ∈ s.inFlight → m.src ∈ (s.replica m.dst).replicas.map Sibling.addr

instance (g : Group n) (s : State n) (e : Event n) : Decidable (StepInOrder g s e) :=
  match e with
  | .elect i => inferInstanceAs (Decidable ((s.replica i).phase = .leadElectWait →
      (∃ j, g.ts j < g.ts i) ∨ (∀ j, g.ts j = g.ts i → g.id i ≤ g.id j) ∨
      ∃ b ∈ (s.replica i).replicas, b.idValid = true ∧ g.ts b.addr = g.ts i ∧ b.id < g.id i))
  | .deliver m => inferInstanceAs
      (Decidable (m ∈ s.inFlight → m.src ∈ (s.replica m.dst).replicas.map Sibling.addr))

theorem exists_isOldest [NeZero n] (g : Group n) : ∃ l, IsOldest g l := by
  obtain ⟨l, -, hmin⟩ := Finset.exists_min_image Finset.univ
    (fun i => (g.ts i).toNat * 2 ^ 16 + (g.id i).toNat) ⟨0, Finset.mem_univ (0 : Fin n)⟩
  refine ⟨l, fun j hj => ?_⟩
  have hle := hmin j (Finset.mem_univ j)
  have hidl := (g.id l).toNat_lt
  have hidj := (g.id j).toNat_lt
  rw [UInt64.lt_iff_toNat_lt, UInt16.lt_iff_toNat_lt, ← UInt64.toNat_inj]
  have hne : (g.id l).toNat ≠ (g.id j).toNat := fun h => hj (g.id_injective (UInt16.toNat_inj.mp h)).symm
  omega

theorem findReplicaFromAddr_eq_none {addr : Fin n} {bs : List (Sibling n)} :
    findReplicaFromAddr addr bs = none ↔ addr ∉ bs.map Sibling.addr := by
  rw [findReplicaFromAddr, List.find?_eq_none, List.mem_map]
  constructor
  · rintro h ⟨b, hb, heq⟩
    exact h b hb (decide_eq_true heq)
  · intro h b hb heq
    exact h ⟨b, hb, of_decide_eq_true heq⟩

theorem mem_of_findReplicaFromAddr {addr : Fin n} {bs : List (Sibling n)} {b : Sibling n}
    (h : findReplicaFromAddr addr bs = some b) : b ∈ bs ∧ b.addr = addr := by
  unfold findReplicaFromAddr at h
  have haddr := List.find?_some h
  exact ⟨List.mem_of_find?_eq_some h, of_decide_eq_true haddr⟩

theorem findReplicaFromAddr_of_mem {bs : List (Sibling n)} {b : Sibling n} (hnodup : (bs.map Sibling.addr).Nodup)
    (hb : b ∈ bs) : findReplicaFromAddr b.addr bs = some b := by
  cases h : findReplicaFromAddr b.addr bs with
  | none => exact absurd (List.mem_map_of_mem hb) (findReplicaFromAddr_eq_none.mp h)
  | some b' =>
      obtain ⟨hb', haddr⟩ := mem_of_findReplicaFromAddr h
      rw [List.inj_on_of_nodup_map hnodup hb' hb haddr]

section Change

variable {f : Sibling n → Sibling n} {addr : Fin n} {bs : List (Sibling n)} {b : Sibling n}

theorem map_addr_changeReplica (hf : ∀ b, (f b).addr = b.addr) :
    (changeReplica f addr bs).map Sibling.addr = bs.map Sibling.addr := by
  induction bs with
  | nil => rfl
  | cons c bs ih =>
      unfold changeReplica
      split
      · rw [List.map_cons, List.map_cons, hf]
      · rw [List.map_cons, List.map_cons, ih]

theorem of_mem_changeReplica (h : b ∈ changeReplica f addr bs) : b ∈ bs ∨ ∃ c ∈ bs, c.addr = addr ∧ b = f c := by
  induction bs with
  | nil => cases h
  | cons c bs ih =>
      unfold changeReplica at h
      split at h
      case isTrue hc =>
        rcases List.mem_cons.mp h with rfl | hb
        · exact .inr ⟨c, List.mem_cons_self, hc, rfl⟩
        · exact .inl (List.mem_cons_of_mem c hb)
      case isFalse =>
        rcases List.mem_cons.mp h with rfl | hb
        · exact .inl List.mem_cons_self
        · rcases ih hb with hb | ⟨d, hd, heq⟩
          · exact .inl (List.mem_cons_of_mem c hb)
          · exact .inr ⟨d, List.mem_cons_of_mem c hd, heq⟩

theorem mem_changeReplica_of_ne (hb : b ∈ bs) (hne : b.addr ≠ addr) : b ∈ changeReplica f addr bs := by
  induction bs with
  | nil => cases hb
  | cons c bs ih =>
      unfold changeReplica
      rcases List.mem_cons.mp hb with rfl | hb
      · rw [if_neg hne]
        exact List.mem_cons_self
      · split
        · exact List.mem_cons_of_mem _ hb
        · exact List.mem_cons_of_mem _ (ih hb)

theorem exists_mem_changeReplica (h : addr ∈ bs.map Sibling.addr) :
    ∃ c ∈ bs, c.addr = addr ∧ f c ∈ changeReplica f addr bs := by
  induction bs with
  | nil => cases h
  | cons c bs ih =>
      by_cases hc : c.addr = addr
      · refine ⟨c, List.mem_cons_self, hc, ?_⟩
        rw [changeReplica, if_pos hc]
        exact List.mem_cons_self
      · rcases List.mem_cons.mp h with heq | h
        · exact absurd heq.symm hc
        · obtain ⟨d, hd, heq, hmem⟩ := ih h
          refine ⟨d, List.mem_cons_of_mem c hd, heq, ?_⟩
          rw [changeReplica, if_neg hc]
          exact List.mem_cons_of_mem c hmem

end Change

/-- The list has a valid id for the address, and it is smaller than the own one. -/
def KnownBelow (own : Sibling n) (bs : List (Sibling n)) (addr : Fin n) : Prop :=
  ∃ b, findReplicaFromAddr addr bs = some b ∧ b.idValid = true ∧ b.id < own.id

/-- The list of an election: those that were not in it are added at the end. -/
structure Grown (own : Fin n) (bs bs' : List (Sibling n)) (added : List (Fin n)) : Prop where
  eq : bs' = bs ++ added.map createReplica
  nodup : (bs.map Sibling.addr).Nodup → (bs'.map Sibling.addr).Nodup
  own_not_mem : own ∉ added

theorem Grown.refl (own : Fin n) (bs : List (Sibling n)) : Grown own bs bs [] where
  eq := (List.append_nil bs).symm
  nodup := id
  own_not_mem := List.not_mem_nil

theorem Grown.trans {own : Fin n} {bs bs' bs'' : List (Sibling n)} {added added' : List (Fin n)}
    (h : Grown own bs bs' added) (h' : Grown own bs' bs'' added') : Grown own bs bs'' (added ++ added') where
  eq := by
    rw [h'.eq, h.eq, List.map_append, List.append_assoc]
  nodup := h'.nodup ∘ h.nodup
  own_not_mem := by
    rw [List.mem_append]
    rintro (hmem | hmem)
    · exact h.own_not_mem hmem
    · exact h'.own_not_mem hmem

theorem map_addr_map_createReplica (added : List (Fin n)) : (added.map createReplica).map Sibling.addr = added := by
  rw [List.map_map]
  exact List.map_id added

theorem grown_updateReplicas {own addr : Fin n} (hne : addr ≠ own) (bs : List (Sibling n)) :
    ∃ added, Grown own bs (updateReplicas bs addr).2 added ∧ addr ∈ (updateReplicas bs addr).2.map Sibling.addr := by
  unfold updateReplicas
  cases h : findReplicaFromAddr addr bs with
  | some b =>
      obtain ⟨hb, rfl⟩ := mem_of_findReplicaFromAddr h
      exact ⟨[], Grown.refl own bs, List.mem_map_of_mem hb⟩
  | none =>
      have hnew := findReplicaFromAddr_eq_none.mp h
      refine ⟨[addr], ⟨rfl, ?_, ?_⟩, ?_⟩
      · intro hnodup
        rw [List.map_append]
        exact List.nodup_append_comm.mp (List.nodup_cons.mpr ⟨hnew, hnodup⟩)
      · rw [List.mem_singleton]
        exact Ne.symm hne
      · rw [List.map_append]
        exact List.mem_append_right _ List.mem_cons_self

/-- A sibling that is only created has no valid id. -/
theorem knownBelow_updateReplicas (own : Sibling n) (bs : List (Sibling n)) (addr a : Fin n) :
    KnownBelow own (updateReplicas bs addr).2 a ↔ KnownBelow own bs a := by
  unfold updateReplicas
  cases h : findReplicaFromAddr addr bs with
  | some b => exact Iff.rfl
  | none =>
      unfold KnownBelow
      have hfind : findReplicaFromAddr a (bs ++ [createReplica addr]) =
          (findReplicaFromAddr a bs).or (findReplicaFromAddr a [createReplica addr]) := List.find?_append
      show (∃ b, findReplicaFromAddr a (bs ++ [createReplica addr]) = some b ∧ _) ↔ _
      rw [hfind]
      cases findReplicaFromAddr a bs with
      | some b => exact Iff.rfl
      | none =>
          rw [Option.none_or]
          constructor
          · rintro ⟨b, hb, hvalid, -⟩
            rw [List.mem_singleton.mp (mem_of_findReplicaFromAddr hb).1] at hvalid
            cases hvalid
          · rintro ⟨b, hb, -⟩
            cases hb

namespace Group

variable (g : Group n) (own : Sibling n)

/-- What the address says against the replica. -/
def Outdone (bs : List (Sibling n)) (addr : Fin n) : Prop :=
  g.ts addr < g.ts own.addr ∨ g.ts addr = g.ts own.addr ∧ KnownBelow own bs addr

theorem knownBelow_iff (bs : List (Sibling n)) (addr : Fin n) :
    KnownBelow own bs addr ↔ (updateReplicas bs addr).1.idValid = true ∧ (updateReplicas bs addr).1.id < own.id := by
  unfold KnownBelow updateReplicas
  cases h : findReplicaFromAddr addr bs with
  | some b =>
      constructor
      · rintro ⟨b', ⟨⟩, hb⟩
        exact hb
      · intro hb
        exact ⟨b, rfl, hb⟩
  | none =>
      constructor
      · rintro ⟨b, hb, -⟩
        cases hb
      · rintro ⟨hvalid, -⟩
        cases hvalid

theorem compare_fst (oldest : Bool) (bs : List (Sibling n)) (addr : Fin n) :
    (g.compare own (oldest, bs) addr).1 = true ↔
      oldest = true ∧ (addr ≠ own.addr → ¬ g.Outdone own bs addr) := by
  unfold compare
  split
  case isTrue heq => exact ⟨fun h => ⟨h, fun hne => absurd heq hne⟩, And.left⟩
  case isFalse hne =>
    simp only [Bool.and_eq_true, Bool.not_eq_true', decide_eq_false_iff_not, Outdone, knownBelow_iff, not_or]
    constructor
    · rintro ⟨⟨h, hts⟩, htie⟩
      exact ⟨h, fun _ => ⟨hts, htie⟩⟩
    · rintro ⟨h, hnot⟩
      exact ⟨⟨h, (hnot hne).1⟩, (hnot hne).2⟩

theorem compare_snd (oldest : Bool) (bs : List (Sibling n)) (addr : Fin n) :
    (g.compare own (oldest, bs) addr).2 = if addr = own.addr then bs else (updateReplicas bs addr).2 := by
  unfold compare
  split <;> rfl

/-- The whole loop. -/
theorem foldl_compare (addrs : List (Fin n)) (oldest : Bool) (bs : List (Sibling n)) :
    ((addrs.foldl (g.compare own) (oldest, bs)).1 = true ↔
      oldest = true ∧ ∀ a ∈ addrs, a ≠ own.addr → ¬ g.Outdone own bs a) ∧
    ∃ added, Grown own.addr bs (addrs.foldl (g.compare own) (oldest, bs)).2 added ∧
      ∀ a ∈ addrs, a ≠ own.addr → a ∈ (addrs.foldl (g.compare own) (oldest, bs)).2.map Sibling.addr := by
  induction addrs generalizing oldest bs with
  | nil =>
      refine ⟨⟨fun h => ⟨h, fun a ha => absurd ha List.not_mem_nil⟩, And.left⟩, [], Grown.refl own.addr bs, ?_⟩
      intro a ha
      exact absurd ha List.not_mem_nil
  | cons addr addrs ih =>
      have hfst := g.compare_fst own oldest bs addr
      have hsnd := g.compare_snd own oldest bs addr
      obtain ⟨ihfst, added', hgrown', hmem'⟩ :=
        ih (g.compare own (oldest, bs) addr).1 (g.compare own (oldest, bs) addr).2
      rw [List.foldl_cons]
      have hout : ∀ a, g.Outdone own (g.compare own (oldest, bs) addr).2 a ↔ g.Outdone own bs a := by
        intro a
        rw [hsnd]
        split
        · exact Iff.rfl
        · rw [Outdone, Outdone, knownBelow_updateReplicas]
      constructor
      · rw [ihfst, hfst, and_assoc]
        simp only [hout, List.forall_mem_cons]
      · by_cases heq : addr = own.addr
        · have hsame : g.compare own (oldest, bs) addr = (oldest, bs) := if_pos heq
          rw [hsame] at hgrown' hmem' ⊢
          refine ⟨added', hgrown', ?_⟩
          intro a ha hne
          rcases List.mem_cons.mp ha with rfl | ha
          · exact absurd heq hne
          · exact hmem' a ha hne
        · rw [if_neg heq] at hsnd
          obtain ⟨added, hgrown, hmem⟩ := grown_updateReplicas heq bs
          rw [← hsnd] at hgrown hmem
          refine ⟨added ++ added', hgrown.trans hgrown', ?_⟩
          intro a ha hne
          rcases List.mem_cons.mp ha with rfl | ha
          · rw [hgrown'.eq, List.map_append]
            exact List.mem_append_left _ hmem
          · exact hmem' a ha hne

end Group

/-! ### The invariant of a replica -/

/-- What the replica of an address knows is right, as far as it goes; nobody but `l` leads. -/
structure Sound (g : Group n) (l i : Fin n) (r : Replica n) : Prop where
  own_addr : r.own.addr = i
  own_id : r.own.id = g.id i
  own_leader : r.own.leader = true → i = l
  nodup : (r.replicas.map Sibling.addr).Nodup
  own_not_mem : i ∉ r.replicas.map Sibling.addr
  id_eq : ∀ b ∈ r.replicas, b.idValid = true → b.id = g.id b.addr
  addr_eq : ∀ b ∈ r.replicas, b.leader = true → b.addr = l

/-- What holds of a replica after its election. -/
structure Elected (l i : Fin n) (r : Replica n) : Prop where
  leader_iff : r.own.leader = true ↔ i = l
  listed : ∀ j, j ≠ i → j ∈ r.replicas.map Sibling.addr

/-- The message of `i` has come. -/
def Informed (l i : Fin n) (r : Replica n) : Prop :=
  ∃ b ∈ r.replicas, b.addr = i ∧ b.idValid = true ∧ (b.leader = true ↔ i = l)

section Phase

variable {g : Group n} {l i : Fin n} {r : Replica n}

theorem Sound.updateState (h : Sound g l i r) : Sound g l i r.updateState :=
  ⟨h.own_addr, h.own_id, h.own_leader, h.nodup, h.own_not_mem, h.id_eq, h.addr_eq⟩

theorem Elected.updateState (h : Elected l i r) : Elected l i r.updateState := ⟨h.leader_iff, h.listed⟩

theorem Informed.updateState (h : Informed l i r) : Informed l i r.updateState := h

end Phase

section Replica

variable {g : Group n} {l i : Fin n} {r : Replica n}

theorem not_outdone_of_isOldest (hl : IsOldest g l) (h : Sound g l l r) {j : Fin n} (hj : j ≠ l) :
    ¬ g.Outdone r.own r.replicas j := by
  rintro (hlt | ⟨htie, b, hb, hvalid, hid⟩)
  · rw [h.own_addr] at hlt
    rcases hl j hj with hts | ⟨hts, -⟩
    · exact UInt64.lt_asymm hts hlt
    · exact UInt64.lt_irrefl _ (hts ▸ hlt)
  · obtain ⟨hmem, rfl⟩ := mem_of_findReplicaFromAddr hb
    rw [h.own_addr] at htie
    rw [h.id_eq b hmem hvalid, h.own_id] at hid
    rcases hl b.addr hj with hts | ⟨-, hlt⟩
    · exact UInt64.lt_irrefl _ (htie ▸ hts)
    · exact UInt16.lt_asymm hid hlt

/-- Who is not the oldest is outdone by somebody. -/
theorem exists_outdone (hl : IsOldest g l) (h : Sound g l i r) (hi : i ≠ l)
    (horder : (∃ j, g.ts j < g.ts i) ∨ (∀ j, g.ts j = g.ts i → g.id i ≤ g.id j) ∨
      ∃ b ∈ r.replicas, b.idValid = true ∧ g.ts b.addr = g.ts i ∧ b.id < g.id i) :
    ∃ j, j ≠ i ∧ g.Outdone r.own r.replicas j := by
  rcases horder with ⟨j, hj⟩ | hmin | ⟨b, hb, hvalid, htie, hid⟩
  · refine ⟨j, ?_, .inl (by rwa [h.own_addr])⟩
    rintro rfl
    exact UInt64.lt_irrefl _ hj
  · refine ⟨l, Ne.symm hi, .inl ?_⟩
    rw [h.own_addr]
    rcases hl i hi with hts | ⟨hts, hid⟩
    · exact hts
    · exact absurd hid (UInt16.not_lt.mpr (hmin l hts))
  · refine ⟨b.addr, ?_, .inr ⟨by rwa [h.own_addr], b, findReplicaFromAddr_of_mem h.nodup hb, hvalid, ?_⟩⟩
    · intro heq
      exact h.own_not_mem (heq ▸ List.mem_map_of_mem hb)
    · rwa [h.own_id]

/-- The siblings that an election adds have no id and do not lead. -/
theorem Sound.grow {bs : List (Sibling n)} {added : List (Fin n)} {leader : Bool} (h : Sound g l i r)
    (hgrown : Grown i r.replicas bs added) (hleader : leader = true → i = l) :
    Sound g l i { r with own := { r.own with leader := leader }, replicas := bs } := by
  have hnew : ∀ b ∈ bs, b ∈ r.replicas ∨ b.idValid = false ∧ b.leader = false := by
    intro b hb
    rw [hgrown.eq] at hb
    rcases List.mem_append.mp hb with hb | hb
    · exact .inl hb
    · obtain ⟨a, -, rfl⟩ := List.mem_map.mp hb
      exact .inr ⟨rfl, rfl⟩
  refine ⟨h.own_addr, h.own_id, hleader, hgrown.nodup h.nodup, ?_, ?_, ?_⟩
  · show i ∉ bs.map Sibling.addr
    rw [hgrown.eq, List.map_append, map_addr_map_createReplica, List.mem_append]
    rintro (hmem | hmem)
    · exact h.own_not_mem hmem
    · exact hgrown.own_not_mem hmem
  · intro b hb hvalid
    rcases hnew b hb with hold | ⟨hno, -⟩
    · exact h.id_eq b hold hvalid
    · rw [hno] at hvalid
      cases hvalid
  · intro b hb hmark
    rcases hnew b hb with hold | ⟨-, hno⟩
    · exact h.addr_eq b hold hmark
    · rw [hno] at hmark
      cases hmark

theorem Informed.grow {j : Fin n} {bs : List (Sibling n)} {added : List (Fin n)} {own : Sibling n}
    (h : Informed l j r) (hgrown : Grown i r.replicas bs added) :
    Informed l j { r with own := own, replicas := bs } := by
  obtain ⟨b, hb, hinf⟩ := h
  refine ⟨b, ?_, hinf⟩
  show b ∈ bs
  rw [hgrown.eq]
  exact List.mem_append_left _ hb

/-- The election of a replica that can tell makes it the leader or not, as it should. -/
theorem foldl_compare_leader (hl : IsOldest g l) (h : Sound g l i r)
    (horder : (∃ j, g.ts j < g.ts i) ∨ (∀ j, g.ts j = g.ts i → g.id i ≤ g.id j) ∨
      ∃ b ∈ r.replicas, b.idValid = true ∧ g.ts b.addr = g.ts i ∧ b.id < g.id i) :
    ((g.siblingAddrs r.own.addr).foldl (g.compare r.own) (true, r.replicas)).1 = true ↔ i = l := by
  rw [(g.foldl_compare r.own (g.siblingAddrs r.own.addr) true r.replicas).1]
  constructor
  · rintro ⟨-, hall⟩
    by_contra hi
    obtain ⟨j, hj, hout⟩ := exists_outdone hl h hi horder
    exact hall j (g.mem_siblingAddrs _ j) (by rwa [h.own_addr]) hout
  · rintro rfl
    refine ⟨rfl, fun a _ ha => not_outdone_of_isOldest hl h ?_⟩
    rwa [h.own_addr] at ha

theorem leaderElect_spec (hdebug : g.debugReplica = true) (hl : IsOldest g l) (h : Sound g l i r)
    (horder : (∃ j, g.ts j < g.ts i) ∨ (∀ j, g.ts j = g.ts i → g.id i ≤ g.id j) ∨
      ∃ b ∈ r.replicas, b.idValid = true ∧ g.ts b.addr = g.ts i ∧ b.id < g.id i)
    (hphase : r.phase ≠ .leadElectWait) :
    Sound g l i (g.leaderElect r) ∧ Elected l i (g.leaderElect r) ∧
      (∀ j, Informed l j r → Informed l j (g.leaderElect r)) ∧ (g.leaderElect r).phase ≠ .leadElectWait := by
  have hleader := foldl_compare_leader hl h horder
  obtain ⟨-, added, hgrown, hlisted⟩ := g.foldl_compare r.own (g.siblingAddrs r.own.addr) true r.replicas
  unfold Group.leaderElect
  generalize (g.siblingAddrs r.own.addr).foldl (g.compare r.own) (true, r.replicas) = res at *
  obtain ⟨oldest, bs⟩ := res
  rw [h.own_addr] at hgrown
  have hsound := h.grow hgrown hleader.mp
  have helected : Elected l i { r with own := { r.own with leader := oldest }, replicas := bs } := by
    refine ⟨hleader, fun j hj => hlisted j (g.mem_siblingAddrs _ j) ?_⟩
    rwa [h.own_addr]
  simp only [hdebug, if_true]
  split
  · exact ⟨hsound.updateState, helected.updateState, fun j hj => (hj.grow hgrown).updateState, fun hno => by cases hno⟩
  · exact ⟨hsound, helected, fun j hj => hj.grow hgrown, hphase⟩

/-- The sibling structure with what a message says. -/
def filled (leader : Bool) (id : UInt16) (b : Sibling n) : Sibling n :=
  { b with id := id, idValid := true, leader := leader }

section Filled

variable {a : Fin n} {leader : Bool} {id : UInt16}

theorem Sound.change (h : Sound g l i r) (hid : id = g.id a) (hleader : leader = true ↔ a = l) :
    Sound g l i { r with replicas := changeReplica (filled leader id) a r.replicas } := by
  have haddrs : (changeReplica (filled leader id) a r.replicas).map Sibling.addr = r.replicas.map Sibling.addr :=
    map_addr_changeReplica fun b => rfl
  refine ⟨h.own_addr, h.own_id, h.own_leader, haddrs ▸ h.nodup, haddrs ▸ h.own_not_mem, ?_, ?_⟩
  · intro b hb hvalid
    rcases of_mem_changeReplica hb with hold | ⟨c, hc, rfl, rfl⟩
    · exact h.id_eq b hold hvalid
    · exact hid
  · intro b hb hmark
    rcases of_mem_changeReplica hb with hold | ⟨c, hc, rfl, rfl⟩
    · exact h.addr_eq b hold hmark
    · exact hleader.mp hmark

theorem Elected.change (h : Elected l i r) :
    Elected l i { r with replicas := changeReplica (filled leader id) a r.replicas } := by
  have haddrs : (changeReplica (filled leader id) a r.replicas).map Sibling.addr = r.replicas.map Sibling.addr :=
    map_addr_changeReplica fun b => rfl
  exact ⟨h.leader_iff, haddrs ▸ h.listed⟩

theorem informed_change (ha : a ∈ r.replicas.map Sibling.addr) (hleader : leader = true ↔ a = l) :
    Informed l a { r with replicas := changeReplica (filled leader id) a r.replicas } := by
  obtain ⟨c, -, haddr, hmem⟩ := exists_mem_changeReplica (f := filled leader id) ha
  exact ⟨filled leader id c, hmem, haddr, rfl, hleader⟩

theorem Informed.change {j : Fin n} (h : Informed l j r) (ha : a ∈ r.replicas.map Sibling.addr)
    (hleader : leader = true ↔ a = l) :
    Informed l j { r with replicas := changeReplica (filled leader id) a r.replicas } := by
  by_cases hj : j = a
  · rw [hj]
    exact informed_change ha hleader
  · obtain ⟨b, hb, rfl, hinf⟩ := h
    exact ⟨b, mem_changeReplica_of_ne hb hj, rfl, hinf⟩

/-- What a message of a known sender leaves behind. Nobody who leads hears of another leader. -/
theorem fillId_spec (h : Sound g l i r) (ha : a ∈ r.replicas.map Sibling.addr) (hid : id = g.id a)
    (hleader : leader = true ↔ a = l) :
    Sound g l i (g.fillId r a leader id) ∧ (Elected l i r → Elected l i (g.fillId r a leader id)) ∧
      Informed l a (g.fillId r a leader id) ∧ (∀ j, Informed l j r → Informed l j (g.fillId r a leader id)) ∧
      ((g.fillId r a leader id).phase = .leadElectWait ↔ r.phase = .leadElectWait) := by
  have hboth : (leader && r.own.leader) = false := by
    rw [Bool.and_eq_false_iff, ← Bool.not_eq_true, ← Bool.not_eq_true, ← not_and_or]
    rintro ⟨hlead, hown⟩
    rw [h.own_leader hown, ← hleader.mp hlead] at h
    exact h.own_not_mem ha
  obtain ⟨c, hc⟩ := Option.ne_none_iff_exists'.mp fun hnone => findReplicaFromAddr_eq_none.mp hnone ha
  have hsound := h.change hid hleader
  unfold Group.fillId
  simp only [hc, hboth, Bool.false_and, Bool.false_eq_true, if_false]
  split
  case isTrue hstart =>
    have hphase : r.phase = .leadElectStart := of_decide_eq_true (Bool.and_eq_true _ _ ▸ hstart).2
    refine ⟨hsound.updateState, fun he => he.change.updateState, (informed_change ha hleader).updateState,
      fun j hj => (hj.change ha hleader).updateState, ?_⟩
    rw [hphase]
    exact ⟨fun hno => (by cases hno), fun hno => (by cases hno)⟩
  case isFalse =>
    exact ⟨hsound, fun he => he.change, informed_change ha hleader, fun j hj => hj.change ha hleader, Iff.rfl⟩

end Filled

end Replica

/-- Everybody is right as far as it goes; who has elected has told everybody, or the message is on its way. -/
structure Orderly (g : Group n) (l : Fin n) (s : State n) : Prop where
  sound : ∀ i, Sound g l i (s.replica i)
  elected : ∀ i, (s.replica i).phase ≠ .leadElectWait → Elected l i (s.replica i)
  message : ∀ m ∈ s.inFlight, m.id = g.id m.src ∧ (m.leader = true ↔ m.src = l)
  told : ∀ i j, j ≠ i → (s.replica i).phase ≠ .leadElectWait →
    (∃ m ∈ s.inFlight, m.src = i ∧ m.dst = j) ∨ Informed l i (s.replica j)

theorem orderly_start (g : Group n) (l : Fin n) : Orderly g l g.start where
  sound i := by
    have haddrs : (g.replicasInit i).replicas.map Sibling.addr = (g.initialAddrs i).filter fun j => j ≠ i :=
      map_addr_map_createReplica _
    refine ⟨rfl, rfl, fun h => (by cases h), ?_, ?_, ?_, ?_⟩
    · show ((g.replicasInit i).replicas.map Sibling.addr).Nodup
      rw [haddrs]
      exact (g.nodup_initialAddrs i).filter _
    · show i ∉ (g.replicasInit i).replicas.map Sibling.addr
      rw [haddrs]
      simp
    · intro b hb hvalid
      obtain ⟨a, -, rfl⟩ := List.mem_map.mp hb
      cases hvalid
    · intro b hb hmark
      obtain ⟨a, -, rfl⟩ := List.mem_map.mp hb
      cases hmark
  elected i hi := absurd rfl hi
  message m hm := absurd hm List.not_mem_nil
  told i j _ hi := absurd rfl hi

section Step

variable {g : Group n} {l : Fin n} {s : State n}

theorem replica_setReplica_self (i : Fin n) (r : Replica n) : (s.setReplica i r).replica i = r := if_pos rfl

theorem replica_setReplica_of_ne {i j : Fin n} (r : Replica n) (h : j ≠ i) :
    (s.setReplica i r).replica j = s.replica j := if_neg h

theorem length_siblingAddrs (g : Group n) (i : Fin n) : (g.siblingAddrs i).length = n := by
  have hperm : (g.siblingAddrs i).Perm (List.finRange n) := by
    rw [List.perm_ext_iff_of_nodup (g.nodup_siblingAddrs i) (List.nodup_finRange n)]
    intro j
    exact ⟨fun _ => List.mem_finRange j, fun _ => g.mem_siblingAddrs i j⟩
  rw [hperm.length_eq, List.length_finRange]

/-- The state after an election. -/
theorem elect_eq {i : Fin n} (hwait : (s.replica i).phase = .leadElectWait) {r : Replica n}
    (hr : g.leaderElect { s.replica i with phase := .leadElectStart } = r) :
    (s.elect g i).result = some { s.setReplica i r with
      inFlight := s.inFlight ++ r.replicas.map fun b => ⟨i, b.addr, r.own.id, r.own.leader⟩ } := by
  unfold State.elect
  rw [if_pos hwait, if_pos (length_siblingAddrs g i), hr]
  unfold State.sendIds
  rw [replica_setReplica_self]
  rfl

theorem Orderly.elect (hdebug : g.debugReplica = true) (hl : IsOldest g l) (h : Orderly g l s) {i : Fin n}
    (horder : StepInOrder g s (.elect i)) {t : State n} (ht : (s.elect g i).result = some t) : Orderly g l t := by
  by_cases hwait : (s.replica i).phase = .leadElectWait
  · generalize hr : g.leaderElect { s.replica i with phase := .leadElectStart } = r
    rw [elect_eq hwait hr] at ht
    cases ht
    have hi := h.sound i
    have hstart : Sound g l i { s.replica i with phase := .leadElectStart } :=
      ⟨hi.own_addr, hi.own_id, hi.own_leader, hi.nodup, hi.own_not_mem, hi.id_eq, hi.addr_eq⟩
    obtain ⟨hsound, helected, hinformed, hphase⟩ :=
      leaderElect_spec hdebug hl hstart (horder hwait) fun hno => by cases hno
    rw [hr] at hsound helected hinformed hphase
    constructor
    case sound =>
      intro j
      by_cases hj : j = i
      · rw [hj, replica_setReplica_self]
        exact hsound
      · rw [replica_setReplica_of_ne r hj]
        exact h.sound j
    case elected =>
      intro j
      by_cases hj : j = i
      · rw [hj, replica_setReplica_self]
        exact fun _ => helected
      · rw [replica_setReplica_of_ne r hj]
        exact h.elected j
    case message =>
      intro m hm
      rcases List.mem_append.mp hm with hm | hm
      · exact h.message m hm
      · obtain ⟨b, -, rfl⟩ := List.mem_map.mp hm
        exact ⟨hsound.own_id, helected.leader_iff⟩
    case told =>
      intro j k hne hj
      by_cases hji : j = i
      · subst hji
        -- the list has everybody, so there is a message to everybody
        obtain ⟨b, hb, rfl⟩ := List.mem_map.mp (helected.listed k hne)
        exact .inl ⟨_, List.mem_append_right _ (List.mem_map_of_mem hb), rfl, rfl⟩
      · rw [replica_setReplica_of_ne r hji] at hj
        rcases h.told j k hne hj with ⟨m, hm, hsrc, hdst⟩ | hinf
        · exact .inl ⟨m, List.mem_append_left _ hm, hsrc, hdst⟩
        · right
          by_cases hk : k = i
          · rw [hk, replica_setReplica_self]
            rw [hk] at hinf
            exact hinformed j hinf
          · rw [replica_setReplica_of_ne r hk]
            exact hinf
  · rw [State.elect, if_neg hwait] at ht
    cases ht
    exact h

theorem Orderly.deliver (h : Orderly g l s) {m : ReplicaEx n} (horder : StepInOrder g s (.deliver m)) {t : State n}
    (ht : (s.deliver g m).result = some t) : Orderly g l t := by
  by_cases hm : m ∈ s.inFlight
  · rw [State.deliver, if_pos hm] at ht
    cases ht
    obtain ⟨hid, hleader⟩ := h.message m hm
    obtain ⟨hsound, helected, hself, hinformed, hphase⟩ := fillId_spec (h.sound m.dst) (horder hm) hid hleader
    generalize g.fillId (s.replica m.dst) m.src m.leader m.id = r at hsound helected hself hinformed hphase ⊢
    have hphases : ∀ j, ((s.setReplica m.dst r).replica j).phase = .leadElectWait ↔
        (s.replica j).phase = .leadElectWait := by
      intro j
      by_cases hj : j = m.dst
      · rw [hj, replica_setReplica_self]
        exact hphase
      · rw [replica_setReplica_of_ne r hj]
    constructor
    case sound =>
      intro j
      by_cases hj : j = m.dst
      · rw [hj, replica_setReplica_self]
        exact hsound
      · rw [replica_setReplica_of_ne r hj]
        exact h.sound j
    case elected =>
      intro j hjp
      have hold := h.elected j (mt (hphases j).mpr hjp)
      by_cases hj : j = m.dst
      · rw [hj, replica_setReplica_self]
        rw [hj] at hold
        exact helected hold
      · rw [replica_setReplica_of_ne r hj]
        exact hold
    case message =>
      intro m' hm'
      exact h.message m' (List.mem_of_mem_erase hm')
    case told =>
      intro j k hne hj
      rcases h.told j k hne (mt (hphases j).mpr hj) with ⟨m', hm', rfl, rfl⟩ | hinf
      · by_cases heq : m' = m
        · rw [heq, replica_setReplica_self]
          exact .inr hself
        · exact .inl ⟨m', (List.mem_erase_of_ne heq).mpr hm', rfl, rfl⟩
      · right
        by_cases hk : k = m.dst
        · rw [hk, replica_setReplica_self]
          rw [hk] at hinf
          exact hinformed j hinf
        · rw [replica_setReplica_of_ne r hk]
          exact hinf
  · rw [State.deliver, if_neg hm] at ht
    cases ht
    exact h

/-- When all is done, all agree. -/
theorem Orderly.agreement (h : Orderly g l s) (hdone : Complete s) : Agreement s := by
  obtain ⟨hphases, hempty⟩ := hdone
  have hinformed : ∀ i, ∀ b ∈ (s.replica i).replicas, b.idValid = true ∧ (b.leader = true ↔ b.addr = l) := by
    intro i b hb
    have hne : i ≠ b.addr := by
      rintro rfl
      exact (h.sound b.addr).own_not_mem (List.mem_map_of_mem hb)
    rcases h.told b.addr i hne (hphases b.addr) with ⟨m, hm, -⟩ | ⟨c, hc, haddr, hinf⟩
    · rw [hempty] at hm
      cases hm
    · rw [← List.inj_on_of_nodup_map (h.sound i).nodup hc hb haddr, haddr]
      exact hinf
  refine ⟨fun i => ?_, l, fun i => (h.elected i (hphases i)).leader_iff, fun i hi => ⟨?_, ?_⟩, fun b hb => ?_⟩
  · rw [Replica.allIdValid, List.all_eq_true]
    exact fun b hb => (hinformed i b hb).1
  · exact fun b hb => (hinformed i b hb).2
  · obtain ⟨c, hc, haddr⟩ := List.mem_map.mp ((h.elected i (hphases i)).listed l (Ne.symm hi))
    have hsome : ((s.replica i).replicas.find? Sibling.leader).isSome = true :=
      List.find?_isSome.mpr ⟨c, hc, (hinformed i c hc).2.mpr haddr⟩
    obtain ⟨b, hb⟩ := Option.isSome_iff_exists.mp hsome
    have hmem := List.mem_of_find?_eq_some hb
    rw [Replica.getLeaderId, hb, Option.map_some, (h.sound i).id_eq b hmem (hinformed i b hmem).1,
      (hinformed i b hmem).2.mp (List.find?_some hb), (h.sound l).own_id]
  · rw [← Bool.not_eq_true, (hinformed l b hb).2]
    rintro rfl
    exact (h.sound b.addr).own_not_mem (List.mem_map_of_mem hb)

end Step

/-- As long as every step is in order, all agree when all is done. -/
theorem agreement_of_run (g : Group ospf6NumSibs) (hdebug : g.debugReplica = true) {es : List (Event ospf6NumSibs)}
    {t : State ospf6NumSibs} (hall : (machine g).AllSteps (StepInOrder g) g.start es)
    (hrun : ((machine g).run g.start es).result = some t) (hdone : Complete t) : Agreement t := by
  obtain ⟨l, hl⟩ := exists_isOldest g
  have horderly : Orderly g l t := by
    apply (machine g).run_invariant_of_allSteps (orderly_start g l) hall _ hrun
    intro s e s' hs hstep hs'
    cases e with
    | elect i => exact hs.elect hdebug hl hstep hs'
    | deliver m => exact hs.deliver hstep hs'
  exact horderly.agreement hdone

/-- Replicas that are started one after another, with ids in that order. -/
def aged (initialAddrs : List (Fin ospf6NumSibs)) (h : initialAddrs.Nodup) : Group ospf6NumSibs where
  ts i := UInt64.ofNat i.val
  id i := UInt16.ofNat i.val
  initialAddrs _ := initialAddrs
  siblingAddrs _ := List.finRange ospf6NumSibs
  debugReplica := true
  id_injective := by
    unfold Function.Injective
    decide
  nodup_initialAddrs _ := h
  nodup_siblingAddrs _ := List.nodup_finRange ospf6NumSibs
  mem_siblingAddrs _ j := List.mem_finRange j

/-- Their messages. -/
def agedMessages : List (ReplicaEx ospf6NumSibs) :=
  (List.finRange ospf6NumSibs).flatMap fun i =>
    ((List.finRange ospf6NumSibs).filter fun j => j ≠ i).map fun j => ⟨i, j, UInt16.ofNat i.val, i = 0⟩

/-- All elect and then all messages are delivered. -/
def inTurn : List (Event ospf6NumSibs) :=
  (List.finRange ospf6NumSibs).map .elect ++ agedMessages.map .deliver

theorem agreement_inTurn :
    ∃ t, ((machine (aged [] .nil)).run (aged [] .nil).start inTurn).result = some t ∧ Complete t ∧ Agreement t := by
  have hany : (((machine (aged [] .nil)).run (aged [] .nil).start inTurn).result.any
      fun t => decide (Complete t)) = true := by set_option maxRecDepth 8000 in decide
  obtain ⟨t, hrun, hdone⟩ := exists_of_any hany
  exact ⟨t, hrun, hdone, agreement_of_run (aged [] .nil) rfl (by set_option maxRecDepth 8000 in decide) hrun hdone⟩

/-- The first replica elects and its message comes to the second before that one has elected, and knows it. -/
def beforeElection : List (Event ospf6NumSibs) :=
  [.elect 0, .deliver ⟨0, 1, 0, true⟩] ++ (List.finRange ospf6NumSibs).tail.map .elect ++
    (agedMessages.erase ⟨0, 1, 0, true⟩).map .deliver

/-- The second replica never has a valid id of the first, which leads. -/
theorem beforeElection_not_agreement :
    ¬ ∀ (g : Group ospf6NumSibs) (es : List (Event ospf6NumSibs)) (t : State ospf6NumSibs), g.debugReplica = true →
      ((machine g).run g.start es).result = some t → Complete t → Agreement t := by
  intro h
  have hany : (((machine (aged [] .nil)).run (aged [] .nil).start beforeElection).result.any
      fun t => decide (Complete t ∧ (t.replica 1).allIdValid = false)) = true := by decide
  obtain ⟨t, hrun, hdone, hvalid⟩ := exists_of_any hany
  have hagree := h (aged [] .nil) beforeElection t rfl hrun hdone
  rw [hagree.1 1] at hvalid
  cases hvalid

end Harry.Election
