import Mathlib.Data.Fintype.Basic
import Harry.ControllerIngress
import Harry.ControllerStep

/-! The first egress message of a restarted sibling. The controllers write the sequence number of their leader to one
key of the database after every vote; the sibling reads that key before its first Hello and goes on from there with
every controller. A controller compares the first message with the number of its leader at the time the message
comes. -/

namespace Harry.Readmission

open Harry.Base Harry.Rfp Harry.Controller
open Harry.Ingress (PutReply)

/-- Where a controller is in `db_set_egress_xid`: before its read, or between the read, with the vector clock it has
got, and the write. -/
inductive DbSet where
  | get (xid : UInt32)
  | put (xid : UInt32) (vclock : Nat)
  deriving DecidableEq

/-- The controllers, the key and the restarted sibling. The contents of the key are the numbers its texts stand for; the
clock counts the writes that went through. `channel` has what the sibling has sent to a controller and the
controller has not read. -/
structure System (m : Nat) where
  controller : Fin m → State
  dbSet : Fin m → Option DbSet
  contents : List UInt32
  vclock : Nat
  restartedFirstEgressNotSent : Bool
  currentXid : Fin m → UInt32
  channel : Fin m → List Rfpbuf

/-- A controller reads the first egress message of the sibling: its transaction id, and the sequence number that the
controller then holds for the sibling. -/
structure First (m : Nat) where
  controller : Fin m
  xid : UInt32
  currentEgressXid : UInt32
  deriving DecidableEq

inductive Event (m : Nat) where
  /-- What happens at a controller other than by the restarted sibling. -/
  | controller (c : Fin m) (e : Controller.Event)
  | dbGet (c : Fin m) (fails : Bool)
  | dbPut (c : Fin m) (reply : PutReply)
  /-- `ospf6_hello_send` at the interface of a controller; `fails` is about its read of the key, if it reads. -/
  | helloSend (c : Fin m) (body : List UInt8) (fails : Bool)
  /-- A controller reads a message of the restarted sibling. -/
  | deliver (c : Fin m) (env : Env)

/-- `db_get_egress_xid`, as the `unsigned int` it is assigned to. -/
def dbGetEgressXid (contents : List UInt32) (fails : Bool) : UInt32 :=
  if fails then -1
  else match contents with
    | [xid] => xid
    | _ => 0

/-- The number of a `db_set_egress_xid` that has been called. -/
def dbSetOf : Output → Option DbSet
  | .dbSetEgressXid xid => some (.get xid)
  | _ => none

/-- The connection that an event of the controller is about. -/
def connectionOf : Controller.Event → Option SibRef
  | .start k => some k
  | .recv k _ _ => some k
  | .destroy k => some k
  | _ => none

variable {m : Nat}

namespace System

variable (slot : Fin m → SibRef) (s : System m)

/-- One event of a controller, up to a call of `db_set_egress_xid`. -/
def act (c : Fin m) (e : Controller.Event) : Exec (First m) (System m) := do
  let x := Controller.machine.step (s.controller c) e
  let t ← Exec.deref x.result
  pure { s with
    controller := Function.update s.controller c t
    dbSet := Function.update s.dbSet c (x.outs.findSome? dbSetOf) }

/-- `db_set_egress_xid` up to the write. -/
def dbGet (c : Fin m) (fails : Bool) : System m :=
  match s.dbSet c with
  | some (.get xid) =>
      let read := fails = false ∧ s.contents.length = 1
      { s with dbSet := Function.update s.dbSet c (if read then some (.put xid s.vclock) else none) }
  | _ => s

/-- The write of `db_set_egress_xid`, which goes through only if nobody has written since the read. -/
def dbPut (c : Fin m) (reply : PutReply) : System m :=
  match s.dbSet c with
  | some (.put xid vclock) =>
      let t := { s with dbSet := Function.update s.dbSet c none }
      if vclock = s.vclock ∧ reply ≠ .failure false then { t with contents := [xid], vclock := s.vclock + 1 } else t
  | _ => s

/-- `synchronize_current_xid`. -/
def synchronizeCurrentXid (fails : Bool) : System m :=
  { s with currentXid := fun _ => dbGetEgressXid s.contents fails }

/-- `ospf6_msg_send` of an egress message. -/
def msgSend (c : Fin m) (body : List UInt8) : System m :=
  { s with
    channel := Function.update s.channel c
      (s.channel c ++ [Rfpbuf.routeflowAllocXid .forwardOspf6 (s.currentXid c) body])
    currentXid := Function.update s.currentXid c (s.currentXid c + 1) }

/-- `ospf6_hello_send`. -/
def helloSend (c : Fin m) (body : List UInt8) (fails : Bool) : System m :=
  let s := if s.restartedFirstEgressNotSent then s.synchronizeCurrentXid fails else s
  { s.msgSend c body with restartedFirstEgressNotSent := false }

/-- The number that a controller compares the first egress message of a sibling with. -/
def firstEgressXid (s : State) (k : SibRef) : Option UInt32 :=
  ((s.sib k).filter SibRouter.waitingOnFirstEgressMsg).map fun sr => (syncFirstEgress s sr).currentEgressXid

/-- A controller reads the next message of the sibling. -/
def deliver (c : Fin m) (env : Env) : Exec (First m) (System m) :=
  match s.channel c with
  | [] => pure s
  | msg :: msgs => do
      Exec.emits ((firstEgressXid (s.controller c) (slot c)).map fun x => (⟨c, msg.xid, x⟩ : First m)).toList
      { s with channel := Function.update s.channel c msgs }.act c (.recv (slot c) msg env)

/-- A controller that is in `db_set_egress_xid` does nothing else. -/
def step : Event m → Exec (First m) (System m)
  | .controller c e => if (s.dbSet c).isSome ∨ connectionOf e = some (slot c) then pure s else s.act c e
  | .dbGet c fails => pure (s.dbGet c fails)
  | .dbPut c reply => pure (s.dbPut c reply)
  | .helloSend c body fails => pure (s.helloSend c body fails)
  | .deliver c env => if (s.dbSet c).isSome then pure s else s.deliver slot c env

end System

/-- Any number of controllers and a sibling that has the connection `slot c` at controller `c`. -/
def machine (slot : Fin m → SibRef) : Machine (System m) (Event m) (First m) := ⟨System.step slot⟩

/-- The sibling has been through the handshake with every controller and has sent no egress message. -/
structure Restarted (slot : Fin m → SibRef) (s : System m) : Prop where
  notSent : s.restartedFirstEgressNotSent = true
  channel : ∀ c, s.channel c = []
  waiting : ∀ c, ∃ sr, (s.controller c).sib (slot c) = some sr ∧ sr.state = .routing ∧
    sr.waitingOnFirstEgressMsg = true

/-- No first message has been rejected. -/
def Admitted (os : List (First m)) : Prop := ∀ o ∈ os, o.currentEgressXid ≤ o.xid

/-- The sibling whose sequence number the controller takes for the one at `k`: its own, or that of the leader. -/
def numberFrom (c : State) (k : SibRef) : SibRef :=
  match c.sib k, c.leaderSibling with
  | some sr, some l => if sr.isLeader = false ∧ (c.sib l).isSome = true then l else k
  | _, _ => k

/-- A handshake request that is accepted and so counted. -/
def Requests (sr : SibRouter) (msg : Rfpbuf) : Prop :=
  msg.xid = sr.currentEgressXid ∧ ((requestNext msg.type sr.state).isSome = true ∨ msg.type = some .ifAddressReq)

instance (sr : SibRouter) (msg : Rfpbuf) : Decidable (Requests sr msg) :=
  inferInstanceAs (Decidable (msg.xid = sr.currentEgressXid ∧
    ((requestNext msg.type sr.state).isSome = true ∨ msg.type = some .ifAddressReq)))

/-- There is room between the number `x` that the controller holds for the sibling at `k` and the transaction id `y`
of the first message, wherever the event counts `x` up: it wins a vote, or is a request of the sibling that the number
is taken from. A sibling that announces itself as the leader is not past `y`. -/
def LeavesRoom (c : State) (k : SibRef) (x y : UInt32) : Controller.Event → Prop
  | .recv k' msg env =>
      ((voteOf c (.recv k' msg env)).any (fun p => (winner p.1).isSome) = true → x < y) ∧
      (k' = numberFrom c k → ∀ sr ∈ c.sib k', Requests sr msg → x < y) ∧
      (msg.type = some .redistributeLeaderElect ∧ msg.data.getD 8 env.spare = 1 ∧
        (c.sib k).any (fun sr => !sr.isLeader) = true → ∀ sr ∈ c.sib k', sr.currentEgressXid ≤ y)
  | _ => True

instance (c : State) (k : SibRef) (x y : UInt32) (e : Controller.Event) : Decidable (LeavesRoom c k x y e) :=
  match e with
  | .recv k' msg env => inferInstanceAs (Decidable (
      ((voteOf c (.recv k' msg env)).any (fun p => (winner p.1).isSome) = true → x < y) ∧
      (k' = numberFrom c k → ∀ sr ∈ c.sib k', Requests sr msg → x < y) ∧
      (msg.type = some .redistributeLeaderElect ∧ msg.data.getD 8 env.spare = 1 ∧
        (c.sib k).any (fun sr => !sr.isLeader) = true → ∀ sr ∈ c.sib k', sr.currentEgressXid ≤ y)))
  | .acceptOspf6 _ | .acceptBgp _ | .start _ | .destroy _ | .ingress _ _ | .routerSide _ _ => isTrue trivial

/-- The number that `syncFirstEgress` takes for the sibling. -/
def heldXid (c : State) (sr : SibRouter) : UInt32 :=
  if sr.isLeader then sr.currentEgressXid else (leaderEgressXid c).getD sr.currentEgressXid

section Controller

variable {c c' : State} {e : Controller.Event} {k : SibRef}

theorem isSome_sib_setSib {k' : SibRef} {old : SibRouter} (hold : c.sib k' = some old) (sr : SibRouter)
    (h : (c.sib k).isSome = true) : ((c.setSib k' sr).sib k).isSome = true := by
  rw [State.sib_setSib hold]
  split
  · rfl
  · exact h

/-- No connection goes out of the tables. -/
theorem isSome_sib_of_stepped (h : Stepped c e c') (hk : (c.sib k).isSome = true) : (c'.sib k).isSome = true := by
  cases h with
  | ignored => exact hk
  | reused hsr hstate => exact isSome_sib_setSib (show c.sib (.ospf6 _) = some _ from hsr) _ hk
  | openedOspf6 hlt hconn =>
      cases k with
      | ospf6 i =>
          simp only [State.sib_ospf6, isSome_getElem?, List.length_append] at hk ⊢
          exact Nat.lt_of_lt_of_le hk (Nat.le_add_right _ _)
      | bgp i => exact hk
  | openedBgp =>
      cases k with
      | ospf6 i => exact hk
      | bgp i =>
          simp only [State.sib_bgp, isSome_getElem?, List.length_append] at hk ⊢
          exact Nat.lt_of_lt_of_le hk (Nat.le_add_right _ _)
  | started hsr hstate => exact isSome_sib_setSib hsr _ hk
  | handled hsr hstate hhandled =>
      cases hhandled with
      | ignored => exact hk
      | moved hxid hnext =>
          rw [State.setSib_addRouting, State.sib_addRouting]
          exact isSome_sib_setSib hsr _ hk
      | bumped htype hxid hnext => exact isSome_sib_setSib hsr _ hk
      | queued hsib hxid => exact isSome_sib_setSib hsr _ hk
      | rejected hsib hxid => exact isSome_sib_setSib hsr _ hk
      | acked => exact isSome_sib_setSib hsr _ hk
      | leader htype b =>
          have hset := fun sr => isSome_sib_setSib hsr sr hk
          cases k <;> exact hset _
  | destroyed hsr hstate =>
      rw [State.setSib_addRouting, State.sib_addRouting]
      exact isSome_sib_setSib hsr _ hk
  | ingress =>
      cases k with
      | ospf6 i =>
          rw [State.sib_ospf6, List.getElem?_map, Option.isSome_map]
          exact hk
      | bgp i => exact hk
  | routerSide => cases k <;> exact hk

/-- The sequence numbers after an event, short of a vote. -/
theorem xid_of_slotStep {sr : SibRouter} (h : SlotStep c e k sr) :
    sr.currentEgressXid = 0 ∨ ∃ old, c.sib k = some old ∧
      (sr.currentEgressXid = old.currentEgressXid ∨
        (∃ msg env, e = .recv k msg env ∧ Requests old msg ∧ sr.currentEgressXid = old.currentEgressXid + 1) ∨
        sr.currentEgressXid = heldXid c old) := by
  have hegress : ∀ {msg old sr'}, egressSib c msg old = some sr' →
      sr'.currentEgressXid = old.currentEgressXid ∨ sr'.currentEgressXid = heldXid c old := by
    intro msg old sr' hsib
    rcases egressSib_cases hsib with rfl | ⟨-, rfl⟩
    · exact .inl rfl
    · exact .inr rfl
  cases h with
  | same hsr => exact .inr ⟨_, hsr, .inl rfl⟩
  | opened raw hsr => exact .inl rfl
  | reused hsr hstate => exact .inl rfl
  | started hsr hstate => exact .inr ⟨_, hsr, .inl rfl⟩
  | destroyed hsr => exact .inr ⟨_, hsr, .inl rfl⟩
  | ingressSent hsr =>
      refine .inr ⟨_, hsr, .inl ?_⟩
      unfold SibRouter.ingressSent
      split <;> rfl
  | moved hsr hxid hnext =>
      exact .inr ⟨_, hsr, .inr (.inl ⟨_, _, rfl, ⟨hxid, .inl (by rw [hnext, Option.isSome_some])⟩, rfl⟩)⟩
  | bumped hsr htype hxid hnext => exact .inr ⟨_, hsr, .inr (.inl ⟨_, _, rfl, ⟨hxid, .inr htype⟩, rfl⟩)⟩
  | queued hsr hstate hsib hxid =>
      rcases hegress hsib with hsame | hheld
      · exact .inr ⟨_, hsr, .inl hsame⟩
      · exact .inr ⟨_, hsr, .inr (.inr hheld)⟩
  | rejected hsr hsib hxid =>
      rcases hegress hsib with hsame | hheld
      · exact .inr ⟨_, hsr, .inl hsame⟩
      · exact .inr ⟨_, hsr, .inr (.inr hheld)⟩
  | acked hsr => exact .inr ⟨_, hsr, .inl rfl⟩
  | leader hsr htype b => exact .inr ⟨_, hsr, .inl rfl⟩

/-- The sibling in the tables. -/
structure Routes (c : State) (k : SibRef) (sr : SibRouter) : Prop where
  sib : c.sib k = some sr
  state : sr.state = .routing

/-- What others do leaves it as it is, less what it has been sent. -/
theorem Routes.stepped {sr : SibRouter} (h : Routes c k sr) (hother : connectionOf e ≠ some k)
    (hstep : Stepped c e c') :
    ∃ sr', Routes c' k sr' ∧ sr'.waitingOnFirstEgressMsg = sr.waitingOnFirstEgressMsg ∧
      sr'.isLeader = sr.isLeader ∧ sr'.currentEgressXid = sr.currentEgressXid := by
  obtain ⟨sr', hsr'⟩ := Option.isSome_iff_exists.mp
    (isSome_sib_of_stepped hstep (by rw [h.sib, Option.isSome_some]))
  have hold : ∀ {old}, c.sib k = some old → old = sr := fun hk => Option.some.inj (hk.symm.trans h.sib)
  refine ⟨sr', ?_⟩
  cases hstep.slot hsr' with
  | same hsr =>
      cases hold hsr
      exact ⟨⟨hsr', h.state⟩, rfl, rfl, rfl⟩
  | opened raw hsr =>
      rw [h.sib] at hsr
      cases hsr
  | reused hsr hstate =>
      cases hold hsr
      rw [h.state] at hstate
      cases hstate
  | ingressSent hsr =>
      cases hold hsr
      rw [SibRouter.ingressSent, if_pos (show isRouting sr = true from decide_eq_true h.state)] at hsr' ⊢
      exact ⟨⟨hsr', h.state⟩, rfl, rfl, rfl⟩
  | started | destroyed | moved | bumped | queued | rejected | acked | leader => exact absurd rfl hother

/-- The number that is taken from a leader is its sequence number. -/
theorem heldXid_of_leader {sr old : SibRouter} {l : SibRef} (hleader : c.leaderSibling = some l)
    (hl : c.sib l = some old) (hsr : sr.isLeader = false) : heldXid c sr = old.currentEgressXid := by
  rw [heldXid, leaderEgressXid, hleader, Option.bind_some, hl, hsr]
  rfl

/-- The leader's own number is the one it has. -/
theorem heldXid_self {old : SibRouter} {l : SibRef} (hleader : c.leaderSibling = some l) (hl : c.sib l = some old) :
    heldXid c old = old.currentEgressXid := by
  cases hlead : old.isLeader with
  | true => rw [heldXid, if_pos hlead]
  | false => exact heldXid_of_leader hleader hl hlead

/-- Without a change of the leader the number goes up only by a request of the leader. -/
theorem heldXid_of_stepped {sr sr' : SibRouter} {y : UInt32} (hw : c.sib k = some sr) (hstep : Stepped c e c')
    (hlead : sr'.isLeader = sr.isLeader) (hxid : sr'.currentEgressXid = sr.currentEgressXid)
    (hleader : c'.leaderSibling = c.leaderSibling) (hle : heldXid c sr ≤ y)
    (hreq : ∀ old msg env, e = .recv (numberFrom c k) msg env → c.sib (numberFrom c k) = some old →
      Requests old msg → heldXid c sr < y) : heldXid c' sr' ≤ y := by
  have hzero : ∀ {x : UInt32}, x = 0 → x ≤ y := by
    rintro x rfl
    exact UInt32.le_iff_toNat_le.mpr (Nat.zero_le _)
  cases hown : sr.isLeader with
  | true =>
      rw [heldXid, if_pos hown] at hle
      rw [heldXid, if_pos (hlead.trans hown), hxid]
      exact hle
  | false =>
      have hown' : sr'.isLeader = false := hlead.trans hown
      cases hl : c.leaderSibling with
      | none =>
          rw [heldXid, leaderEgressXid, hl, hown] at hle
          rw [heldXid, leaderEgressXid, hleader, hl, hown']
          exact hxid ▸ hle
      | some l =>
          cases hold : c.sib l with
          | none =>
              rw [heldXid, leaderEgressXid, hl, Option.bind_some, hold, hown] at hle
              cases hnew : c'.sib l with
              | none =>
                  rw [heldXid, leaderEgressXid, hleader, hl, Option.bind_some, hnew, hown']
                  exact hxid ▸ hle
              | some new =>
                  rw [heldXid_of_leader (hleader.trans hl) hnew hown']
                  rcases xid_of_slotStep (hstep.slot hnew) with h0 | ⟨old, hsome, -⟩
                  · exact hzero h0
                  · rw [hold] at hsome
                    cases hsome
          | some old =>
              obtain ⟨new, hnew⟩ := Option.isSome_iff_exists.mp
                (isSome_sib_of_stepped hstep (by rw [hold, Option.isSome_some]))
              have hfrom : numberFrom c k = l := by
                rw [numberFrom, hw, hl]
                exact if_pos ⟨hown, by rw [hold, Option.isSome_some]⟩
              have hheld := heldXid_of_leader hl hold hown
              rw [heldXid_of_leader (hleader.trans hl) hnew hown']
              rcases xid_of_slotStep (hstep.slot hnew) with h0 | ⟨old', hsome, hsame | hcount | hself⟩
              · exact hzero h0
              · rw [hold] at hsome
                cases hsome
                rw [hsame, ← hheld]
                exact hle
              · rw [hold] at hsome
                cases hsome
                obtain ⟨msg, env, he, hr, hplus⟩ := hcount
                have hlt := hreq old msg env (hfrom ▸ he) (hfrom ▸ hold) hr
                rw [hheld, UInt32.lt_iff_toNat_lt] at hlt
                rw [hplus, UInt32.le_iff_toNat_le, UInt32.toNat_add]
                have := y.toNat_lt
                show (old.currentEgressXid.toNat + 1) % 2 ^ 32 ≤ y.toNat
                omega
              · rw [hold] at hsome
                cases hsome
                rw [hself, heldXid_self hl hold, ← hheld]
                exact hle

/-- The leader changes only when a sibling announces itself. -/
theorem leader_cases (h : (Controller.machine.step c e).result = some c') (hstep : Stepped c e c') :
    c'.leaderSibling = c.leaderSibling ∨ ∃ k' msg env sr, e = .recv k' msg env ∧
      msg.type = some .redistributeLeaderElect ∧ msg.data.getD 8 env.spare = 1 ∧ c.sib k' = some sr ∧
      c' = { c.setSib k' { sr with isLeader := true } with leaderSibling := some k' } := by
  cases hstep with
  | handled hsr hstate hhandled =>
      cases hhandled with
      | leader htype b =>
          rename_i k' msg env sr
          have hact : Controller.machine.step c (.recv k' msg env) = redistributeLeaderElect env k' msg sr c := by
            simp only [Controller.machine, Controller.step, hsr, if_neg hstate, sibRouterProcessPacket,
              Exec.deref_some_bind, htype]
          rw [hact] at h
          obtain ⟨_, -, h⟩ := Exec.result_bind_eq_some.mp h
          by_cases hbyte : msg.data.getD 8 env.spare = 1
          · refine .inr ⟨k', msg, env, sr, rfl, htype, hbyte, hsr, ?_⟩
            rw [decide_eq_true hbyte, if_pos rfl] at h
            exact (Option.some.inj h).symm
          · left
            rw [decide_eq_false hbyte, if_neg Bool.false_ne_true] at h
            rw [← Option.some.inj h]
      | _ => exact .inl (by simp [State.addRouting])
  | _ => exact .inl (by simp [State.addRouting])

/-- A won vote counts up by one. -/
theorem Routes.voted {sr : SibRouter} (h : Routes c k sr) :
    ∃ sr', Routes c.voted k sr' ∧ sr'.waitingOnFirstEgressMsg = sr.waitingOnFirstEgressMsg ∧
      (heldXid c.voted sr' = heldXid c sr ∨ heldXid c.voted sr' = heldXid c sr + 1) := by
  have hnumber : ∀ l old, c.sib l = some old → ∃ new, c.voted.sib l = some new ∧ new.isLeader = old.isLeader ∧
      new.state = old.state ∧ new.waitingOnFirstEgressMsg = old.waitingOnFirstEgressMsg ∧
      (new.currentEgressXid = old.currentEgressXid ∨ new.currentEgressXid = old.currentEgressXid + 1) := by
    intro l old hl
    cases l with
    | ospf6 i =>
        refine ⟨bumpEgressXid (popHead old), ?_, rfl, rfl, rfl, .inr rfl⟩
        rw [sib_voted, hl]
        rfl
    | bgp i =>
        refine ⟨old, ?_, rfl, rfl, rfl, .inl rfl⟩
        rw [sib_voted]
        exact hl
  obtain ⟨sr', hsr', hlead, hstate, hwaiting, hxid⟩ := hnumber k sr h.sib
  refine ⟨sr', ⟨hsr', hstate.trans h.state⟩, hwaiting, ?_⟩
  cases hown : sr.isLeader with
  | true =>
      rw [heldXid, if_pos (hlead.trans hown), heldXid, if_pos hown]
      exact hxid
  | false =>
      have hown' : sr'.isLeader = false := hlead.trans hown
      cases hl : c.leaderSibling.bind c.sib with
      | none =>
          have hl' : c.voted.leaderSibling.bind c.voted.sib = none := by
            cases hleader : c.leaderSibling with
            | none =>
                rw [State.voted, hleader]
                rfl
            | some l =>
                rw [hleader, Option.bind_some] at hl
                rw [show c.voted.leaderSibling = some l from hleader, Option.bind_some, sib_voted]
                cases l with
                | ospf6 i => simp only [hl, Option.map_none]
                | bgp i => exact hl
          rw [heldXid, leaderEgressXid, hl', heldXid, leaderEgressXid, hl, hown, hown']
          exact hxid
      | some old =>
          obtain ⟨l, hleader, hold⟩ := Option.bind_eq_some_iff.mp hl
          obtain ⟨new, hnew, -, -, -, hcount⟩ := hnumber l old hold
          rw [heldXid_of_leader (c := c.voted) hleader hnew hown', heldXid_of_leader hleader hold hown]
          exact hcount

/-- A vote is won on an egress message, which is not a request and does not change the leader. -/
theorem voteOf_spec {c1 : State} {env : Env} (h : voteOf c e = some (c1, env)) :
    c1.leaderSibling = c.leaderSibling ∧
      ∀ k' msg env' old, e = .recv k' msg env' → ¬ Requests old msg := by
  cases e with
  | recv k' msg env' =>
      simp only [voteOf, Option.ite_none_right_eq_some, Option.map_eq_some_iff, Prod.mk.injEq] at h
      obtain ⟨-, c2, hentry, rfl, rfl⟩ := h
      obtain ⟨sr, sr', -, hsib, -, -, rfl⟩ := voteEntry_eq_some.mp hentry
      refine ⟨State.setSib_leaderSibling _ _ _, ?_⟩
      rintro _ _ _ old ⟨⟩ ⟨-, hreq⟩
      unfold egressSib at hsib
      split at hsib
      · next htype => simp [htype, requestNext] at hreq
      · next htype => simp [htype, requestNext] at hreq
      · cases hsib
  | _ => cases h

/-- As long as there is room, the number stays at or below `y`. -/
theorem Routes.step {sr : SibRouter} (hr : Routes c k sr) (hother : connectionOf e ≠ some k)
    (h : (Controller.machine.step c e).result = some c') :
    ∃ sr', Routes c' k sr' ∧ sr'.waitingOnFirstEgressMsg = sr.waitingOnFirstEgressMsg ∧
      ∀ y, LeavesRoom c k (heldXid c sr) y e → heldXid c sr ≤ y → heldXid c' sr' ≤ y := by
  rcases step_cases h with ⟨hstep, -⟩ | ⟨c1, env, a, hvote, hwin, hstep, rfl⟩
  · obtain ⟨sr', hr', hwaiting, hlead, hxid⟩ := hr.stepped hother hstep
    refine ⟨sr', hr', hwaiting, fun y hroom hle => ?_⟩
    rcases leader_cases h hstep with hleader | ⟨k', msg, env, old, rfl, htype, hbyte, hold, rfl⟩
    · apply heldXid_of_stepped hr.sib hstep hlead hxid hleader hle
      rintro old msg env rfl hold hreq
      exact hroom.2.1 rfl old hold hreq
    · cases hown : sr.isLeader with
      | true =>
          rw [heldXid, if_pos hown] at hle
          rw [heldXid, if_pos (hlead.trans hown), hxid]
          exact hle
      | false =>
          have hnew : State.sib { c.setSib k' { old with isLeader := true } with leaderSibling := some k' } k' =
              some { old with isLeader := true } := by
            have hset := State.sib_setSib hold { old with isLeader := true } k'
            rw [if_pos rfl] at hset
            cases k' <;> exact hset
          rw [heldXid_of_leader rfl hnew (hlead.trans hown)]
          exact hroom.2.2 ⟨htype, hbyte, by rw [hr.sib, Option.any_some, hown]; rfl⟩ old hold
  · obtain ⟨hleader, hnoreq⟩ := voteOf_spec hvote
    obtain ⟨sr1, hr1, hwaiting1, hlead, hxid⟩ := hr.stepped hother hstep
    obtain ⟨sr', hr', hwaiting, hcount⟩ := hr1.voted
    refine ⟨sr', hr', hwaiting.trans hwaiting1, fun y hroom hle => ?_⟩
    have hle1 : heldXid c1 sr1 ≤ heldXid c sr := by
      apply heldXid_of_stepped hr.sib hstep hlead hxid hleader (UInt32.le_refl _)
      intro old msg env' he hold hreq
      exact absurd hreq (hnoreq _ _ _ _ he)
    have hlt : heldXid c sr < y := by
      cases e with
      | recv k' msg env' =>
          apply hroom.1
          rw [hvote, Option.any_some, hwin, Option.isSome_some]
      | _ => cases hvote
    rw [UInt32.le_iff_toNat_le] at hle1
    rw [UInt32.lt_iff_toNat_lt] at hlt
    rcases hcount with hcount | hcount
    · rw [hcount, UInt32.le_iff_toNat_le]
      omega
    · rw [hcount, UInt32.le_iff_toNat_le, UInt32.toNat_add]
      have := y.toNat_lt
      show ((heldXid c1 sr1).toNat + 1) % 2 ^ 32 ≤ y.toNat
      omega

/-- After an egress message of its own the sibling does not wait any more. -/
theorem Routes.recv {sr : SibRouter} {msg : Rfpbuf} {env : Env} (hr : Routes c k sr)
    (htype : msg.type = some .forwardOspf6) (h : (Controller.machine.step c (.recv k msg env)).result = some c') :
    ∃ sr', Routes c' k sr' ∧ sr'.waitingOnFirstEgressMsg = false := by
  have hsib : egressSib c msg sr = some (syncFirstEgress c sr) := by
    rw [egressSib, htype]
  have hsync : (syncFirstEgress c sr).state = .routing ∧ (syncFirstEgress c sr).waitingOnFirstEgressMsg = false := by
    unfold syncFirstEgress
    split
    case isTrue => exact ⟨hr.state, rfl⟩
    case isFalse hno => exact ⟨hr.state, Bool.not_eq_true _ ▸ hno⟩
  have hset : ∀ new, (c.setSib k new).sib k = some new := fun new => by rw [State.sib_setSib hr.sib, if_pos rfl]
  have hstate : ¬ sr.state = .disconnected := by
    rw [hr.state]
    exact fun hno => by cases hno
  have hact : Controller.machine.step c (.recv k msg env) = egressMsg env k msg (syncFirstEgress c sr) c := by
    rw [← sibRouterProcessPacket_of_egressSib hr.sib hsib]
    simp only [Controller.machine, Controller.step, hr.sib, if_neg hstate]
  have hqueued : Routes (c.setSib k (appendMsgToRcvdQueue (syncFirstEgress c sr) msg)) k
      (appendMsgToRcvdQueue (syncFirstEgress c sr) msg) := ⟨hset _, hsync.1⟩
  rw [hact] at h
  unfold egressMsg at h
  split at h
  · split at h
    · rcases result_voteMajority h with ⟨-, rfl⟩ | ⟨a, -, rfl, -⟩
      · exact ⟨_, hqueued, hsync.2⟩
      · obtain ⟨sr', hr', hwaiting, -⟩ := hqueued.voted
        exact ⟨sr', hr', hwaiting.trans hsync.2⟩
    · cases h
      exact ⟨_, hqueued, hsync.2⟩
  · split at h
    · cases h
      exact ⟨_, hqueued, hsync.2⟩
    · cases h
      exact ⟨_, ⟨hset _, hsync.1⟩, hsync.2⟩

end Controller

/-! ### Runs -/

/-- The transaction id of the next message of the sibling that a controller will read. -/
def System.awaited (s : System m) (c : Fin m) : UInt32 := ((s.channel c).head?.map Rfpbuf.xid).getD (s.currentXid c)

/-- No controller is past the number that the sibling reads from the key, and what others do at a controller, until the
first message has come, leaves room. -/
def StepTimely (slot : Fin m → SibRef) (s : System m) : Event m → Prop
  | .helloSend _ _ fails => s.restartedFirstEgressNotSent = true →
      ∀ c, ∀ x ∈ System.firstEgressXid (s.controller c) (slot c), x ≤ dbGetEgressXid s.contents fails
  | .controller c e => s.restartedFirstEgressNotSent = false ∧ s.dbSet c = none ∧ connectionOf e ≠ some (slot c) →
      ∀ x ∈ System.firstEgressXid (s.controller c) (slot c),
        LeavesRoom (s.controller c) (slot c) x (s.awaited c) e
  | _ => True

instance (slot : Fin m → SibRef) (s : System m) (e : Event m) : Decidable (StepTimely slot s e) :=
  match e with
  | .helloSend _ _ fails =>
      have (c : Fin m) : Decidable (∀ x ∈ System.firstEgressXid (s.controller c) (slot c),
          x ≤ dbGetEgressXid s.contents fails) := Option.decidableForallMem _
      inferInstanceAs (Decidable (s.restartedFirstEgressNotSent = true →
        ∀ c, ∀ x ∈ System.firstEgressXid (s.controller c) (slot c), x ≤ dbGetEgressXid s.contents fails))
  | .controller c e =>
      have : Decidable (∀ x ∈ System.firstEgressXid (s.controller c) (slot c),
          LeavesRoom (s.controller c) (slot c) x (s.awaited c) e) := Option.decidableForallMem _
      inferInstanceAs (Decidable (
        s.restartedFirstEgressNotSent = false ∧ s.dbSet c = none ∧ connectionOf e ≠ some (slot c) →
        ∀ x ∈ System.firstEgressXid (s.controller c) (slot c),
          LeavesRoom (s.controller c) (slot c) x (s.awaited c) e))
  | .dbGet _ _ | .dbPut _ _ | .deliver _ _ => isTrue trivial

theorem firstEgressXid_eq {c : State} {k : SibRef} {sr : SibRouter} (hr : Routes c k sr)
    (hwaiting : sr.waitingOnFirstEgressMsg = true) : System.firstEgressXid c k = some (heldXid c sr) := by
  rw [System.firstEgressXid, hr.sib, Option.filter_some_pos hwaiting, Option.map_some, syncFirstEgress,
    if_pos hwaiting, heldXid]

theorem firstEgressXid_eq_none {c : State} {k : SibRef} {sr : SibRouter} (hr : Routes c k sr)
    (hwaiting : sr.waitingOnFirstEgressMsg = false) : System.firstEgressXid c k = none := by
  rw [System.firstEgressXid, hr.sib, Option.filter_some_neg (by simp [hwaiting])]
  rfl

/-- What the controllers and the sibling keep: a first message that is still to come is not behind. -/
structure Ready (slot : Fin m → SibRef) (s : System m) : Prop where
  channel_nil : s.restartedFirstEgressNotSent = true → ∀ c, s.channel c = []
  channel_type : ∀ c, ∀ msg ∈ s.channel c, msg.type = some .forwardOspf6
  routes : ∀ c, ∃ sr, Routes (s.controller c) (slot c) sr ∧ (sr.waitingOnFirstEgressMsg = true →
    s.restartedFirstEgressNotSent = false → heldXid (s.controller c) sr ≤ s.awaited c)

theorem Restarted.ready {slot : Fin m → SibRef} {s : System m} (h : Restarted slot s) : Ready slot s where
  channel_nil _ := h.channel
  channel_type c msg hmsg := by
    rw [h.channel c] at hmsg
    cases hmsg
  routes c := by
    obtain ⟨sr, hsr, hstate, -⟩ := h.waiting c
    refine ⟨sr, ⟨hsr, hstate⟩, fun _ hsent => ?_⟩
    rw [h.notSent] at hsent
    cases hsent

section Step

variable {slot : Fin m → SibRef} {s t : System m}

theorem outs_act (s : System m) (c : Fin m) (e : Controller.Event) : (s.act c e).outs = [] := by
  apply List.eq_nil_iff_forall_not_mem.mpr
  intro o ho
  rcases Exec.mem_outs_bind.mp ho with ho | ⟨_, -, ho⟩
  · rw [Exec.outs_deref] at ho
    cases ho
  · cases ho

theorem result_act {c : Fin m} {e : Controller.Event} (h : (s.act c e).result = some t) :
    ∃ c', (Controller.machine.step (s.controller c) e).result = some c' ∧
      t.controller = Function.update s.controller c c' ∧ t.channel = s.channel ∧ t.currentXid = s.currentXid ∧
      t.restartedFirstEgressNotSent = s.restartedFirstEgressNotSent := by
  obtain ⟨c', hc', ht⟩ := Exec.result_bind_eq_some.mp h
  cases ht
  exact ⟨c', hc', rfl, rfl, rfl, rfl⟩

theorem Ready.controller (h : Ready slot s) {c : Fin m} {e : Controller.Event} (hfree : s.dbSet c = none)
    (hother : connectionOf e ≠ some (slot c)) (htimely : StepTimely slot s (.controller c e))
    (hact : (s.act c e).result = some t) : Ready slot t := by
  obtain ⟨c', hc', hcontroller, hchannel, hxid, hsent⟩ := result_act hact
  have hawaited : t.awaited = s.awaited := by
    funext d
    rw [System.awaited, System.awaited, hchannel, hxid]
  refine ⟨?_, ?_, ?_⟩
  · rw [hsent, hchannel]
    exact h.channel_nil
  · rw [hchannel]
    exact h.channel_type
  · intro d
    obtain ⟨sr, hr, hle⟩ := h.routes d
    rw [hcontroller, hsent, hawaited]
    by_cases hd : d = c
    · subst hd
      rw [Function.update_self]
      obtain ⟨sr', hr', hwaiting, hroom⟩ := hr.step hother hc'
      refine ⟨sr', hr', fun hw hs => ?_⟩
      rw [hwaiting] at hw
      apply hroom _ _ (hle hw hs)
      exact htimely ⟨hs, hfree, hother⟩ _ (firstEgressXid_eq hr hw)
    · rw [Function.update_of_ne hd]
      exact ⟨sr, hr, hle⟩

theorem awaited_msgSend (s : System m) (c : Fin m) (body : List UInt8) : (s.msgSend c body).awaited = s.awaited := by
  funext d
  by_cases hd : d = c
  · subst hd
    simp only [System.awaited, System.msgSend, Function.update_self]
    cases s.channel d with
    | nil => exact Rfpbuf.xid_routeflowAllocXid _ _ _
    | cons msg msgs => rfl
  · simp only [System.awaited, System.msgSend, Function.update_of_ne hd]

theorem Ready.msgSend (h : Ready slot s) (c : Fin m) (body : List UInt8) :
    Ready slot { s.msgSend c body with restartedFirstEgressNotSent := false } ↔
      ∀ d sr, Routes (s.controller d) (slot d) sr → sr.waitingOnFirstEgressMsg = true →
        heldXid (s.controller d) sr ≤ s.awaited d := by
  have hawaited := awaited_msgSend s c body
  constructor
  · intro hready d sr hr hw
    obtain ⟨sr', hr', hle⟩ := hready.routes d
    cases Option.some.inj (hr.sib.symm.trans hr'.sib)
    rw [← hawaited]
    exact hle hw rfl
  · intro hle
    refine ⟨fun hno => (by cases hno), ?_, ?_⟩
    · intro d msg hmsg
      by_cases hd : d = c
      · subst hd
        simp only [System.msgSend, Function.update_self] at hmsg
        rcases List.mem_append.mp hmsg with hmsg | hmsg
        · exact h.channel_type d msg hmsg
        · rw [List.mem_singleton.mp hmsg]
          exact Rfpbuf.type_routeflowAllocXid _ _ _
      · simp only [System.msgSend, Function.update_of_ne hd] at hmsg
        exact h.channel_type d msg hmsg
    · intro d
      obtain ⟨sr, hr, -⟩ := h.routes d
      refine ⟨sr, hr, fun hw _ => ?_⟩
      have hle' := hle d sr hr hw
      rw [← hawaited] at hle'
      exact hle'

theorem Ready.helloSend (h : Ready slot s) {c : Fin m} {body : List UInt8} {fails : Bool}
    (htimely : StepTimely slot s (.helloSend c body fails)) : Ready slot (s.helloSend c body fails) := by
  unfold System.helloSend
  cases hsent : s.restartedFirstEgressNotSent with
  | true =>
      have hsync : Ready slot (s.synchronizeCurrentXid fails) := by
        refine ⟨h.channel_nil, h.channel_type, fun d => ?_⟩
        obtain ⟨sr, hr, -⟩ := h.routes d
        refine ⟨sr, hr, fun _ hno => ?_⟩
        rw [System.synchronizeCurrentXid, hsent] at hno
        cases hno
      apply (hsync.msgSend c body).mpr
      intro d sr hr hw
      -- nothing has been sent, so the next message has the number that has been read
      have hawaited : (s.synchronizeCurrentXid fails).awaited d = dbGetEgressXid s.contents fails := by
        simp only [System.awaited, System.synchronizeCurrentXid, h.channel_nil hsent d]
        rfl
      rw [hawaited]
      exact htimely hsent d _ (firstEgressXid_eq hr hw)
  | false =>
      apply (h.msgSend c body).mpr
      intro d sr hr hw
      obtain ⟨sr', hr', hle⟩ := h.routes d
      cases Option.some.inj (hr.sib.symm.trans hr'.sib)
      exact hle hw hsent

theorem Ready.deliver (h : Ready slot s) (c : Fin m) (env : Env) :
    Admitted (s.deliver slot c env).outs ∧ ∀ t, (s.deliver slot c env).result = some t → Ready slot t := by
  unfold System.deliver
  cases hchannel : s.channel c with
  | nil =>
      refine ⟨fun o ho => (by cases ho), fun t ht => ?_⟩
      cases ht
      exact h
  | cons msg msgs =>
      have hsent : s.restartedFirstEgressNotSent = false := by
        by_contra hno
        rw [Bool.not_eq_false] at hno
        rw [h.channel_nil hno c] at hchannel
        cases hchannel
      obtain ⟨sr, hr, hle⟩ := h.routes c
      constructor
      · intro o ho
        rw [Exec.outs_emits_bind, outs_act, List.append_nil, Option.mem_toList, Option.map_eq_some_iff] at ho
        obtain ⟨x, hx, rfl⟩ := ho
        cases hw : sr.waitingOnFirstEgressMsg with
        | true =>
            rw [firstEgressXid_eq hr hw] at hx
            cases hx
            have hawaited : s.awaited c = msg.xid := by
              rw [System.awaited, hchannel]
              rfl
            rw [← hawaited]
            exact hle hw hsent
        | false =>
            rw [firstEgressXid_eq_none hr hw] at hx
            cases hx
      · intro t ht
        obtain ⟨_, -, ht⟩ := Exec.result_bind_eq_some.mp ht
        obtain ⟨c', hc', hcontroller, hchannel', hxid, hsent'⟩ := result_act ht
        dsimp only at hc' hcontroller hchannel' hxid hsent'
        have htype := h.channel_type c msg (by rw [hchannel]; exact List.mem_cons_self)
        obtain ⟨sr', hr', hwaiting⟩ := hr.recv htype hc'
        refine ⟨fun hno => ?_, fun d msg' hmsg' => ?_, fun d => ?_⟩
        · rw [hsent'.trans hsent] at hno
          cases hno
        · rw [hchannel'] at hmsg'
          by_cases hd : d = c
          · subst hd
            rw [Function.update_self] at hmsg'
            exact h.channel_type d msg' (by rw [hchannel]; exact List.mem_cons_of_mem msg hmsg')
          · rw [Function.update_of_ne hd] at hmsg'
            exact h.channel_type d msg' hmsg'
        · rw [hcontroller]
          by_cases hd : d = c
          · subst hd
            rw [Function.update_self]
            refine ⟨sr', hr', fun hw => ?_⟩
            rw [hwaiting] at hw
            cases hw
          · obtain ⟨srd, hrd, hled⟩ := h.routes d
            have hawaited : t.awaited d = s.awaited d := by
              simp only [System.awaited, hchannel', hxid, Function.update_of_ne hd]
            rw [Function.update_of_ne hd, hawaited]
            exact ⟨srd, hrd, fun hw _ => hled hw hsent⟩

end Step

/-- As long as every step is timely, no first message is behind the number that the controller holds for the
sibling. -/
theorem admitted_of_run {slot : Fin m → SibRef} {s : System m} (hs : Restarted slot s) {es : List (Event m)}
    (hall : (machine slot).AllSteps (StepTimely slot) s es) : Admitted ((machine slot).run s es).outs := by
  have hnil : Admitted ([] : List (First m)) := fun o ho => by cases ho
  have hstart : Admitted ([] : List (First m)) ∧ Ready slot s := ⟨hnil, hs.ready⟩
  refine ((machine slot).run_outputs_of_allSteps (P := fun os t => Admitted os ∧ Ready slot t) (Q := Admitted)
    hstart hnil hall ?_).1
  rintro os t e ⟨hos, hready⟩ htimely
  have hsilent : ∀ {x : Exec (First m) (System m)}, x.outs = [] → (∀ t', x.result = some t' → Ready slot t') →
      Admitted (os ++ x.outs) ∧ ∀ t', x.result = some t' → Admitted (os ++ x.outs) ∧ Ready slot t' := by
    intro x hx hresult
    rw [hx, List.append_nil]
    exact ⟨hos, fun t' ht' => ⟨hos, hresult t' ht'⟩⟩
  have hsame : ∀ t', (pure t : Exec (First m) (System m)).result = some t' → Ready slot t' := by
    rintro t' ⟨⟩
    exact hready
  cases e with
  | controller c e =>
      simp only [machine, System.step]
      split
      case isTrue => exact hsilent rfl hsame
      case isFalse hcond =>
        rw [not_or, Bool.not_eq_true, Option.isSome_eq_false_iff, Option.isNone_iff_eq_none] at hcond
        exact hsilent (outs_act t c e) fun t' ht' => hready.controller hcond.1 hcond.2 htimely ht'
  | dbGet c fails =>
      apply hsilent rfl
      rintro t' ⟨⟩
      unfold System.dbGet
      split
      · exact ⟨hready.channel_nil, hready.channel_type, hready.routes⟩
      · exact hready
  | dbPut c reply =>
      apply hsilent rfl
      rintro t' ⟨⟩
      unfold System.dbPut
      split
      · dsimp only
        split <;> exact ⟨hready.channel_nil, hready.channel_type, hready.routes⟩
      · exact hready
  | helloSend c body fails =>
      apply hsilent rfl
      rintro t' ⟨⟩
      exact hready.helloSend htimely
  | deliver c env =>
      simp only [machine, System.step]
      split
      · exact hsilent rfl hsame
      · obtain ⟨hadmitted, hresult⟩ := hready.deliver c env
        have hos' : Admitted (os ++ (t.deliver slot c env).outs) := by
          intro o ho
          rcases List.mem_append.mp ho with ho | ho
          · exact hos o ho
          · exact hadmitted o ho
        exact ⟨hos', fun t' ht' => ⟨hos', hresult t' ht'⟩⟩

/-- A sibling that routes, at sequence number `xid`. -/
def routingAt (xid : UInt32) (waiting isLeader : Bool) : SibRouter where
  state := .routing
  currentIngressXid := 0
  currentIngressAckRcvd := false
  currentEgressXid := xid
  waitingOnFirstEgressMsg := waiting
  msgsRcvdQueue := []
  isLeader := isLeader

/-- A controller whose leader is at sequence number 5, with one more sibling and one that has come back. -/
def threeSiblings : State where
  routers := []
  rib := []
  numSibsConf := 3
  voterTypeConf := .any
  nOspf6Siblings := 3
  ospf6Siblings := [routingAt 5 false true, routingAt 5 false false, routingAt 3 true false]
  nOspf6SiblingsRouting := 3
  leaderSibling := some (.ospf6 0)
  nBgpSiblings := 0
  bgpSiblings := []

/-- Some controllers of this kind and the key as they have written it. -/
def comesBack (m : Nat) : System m where
  controller _ := threeSiblings
  dbSet _ := none
  contents := [5]
  vclock := 0
  restartedFirstEgressNotSent := true
  currentXid _ := 3
  channel _ := []

theorem restarted_comesBack (m : Nat) : Restarted (fun _ => .ospf6 2) (comesBack m) where
  notSent := rfl
  channel _ := rfl
  waiting _ := ⟨routingAt 3 true false, rfl, rfl, rfl⟩

/-- Two controllers read the first Hello before anything else happens. -/
theorem admitted_atOnce :
    ((machine (fun _ => SibRef.ospf6 2)).run (comesBack 2)
      [.helloSend 0 [] false, .deliver 0 ⟨fun _ => true, 0⟩, .helloSend 1 [] false,
        .deliver 1 ⟨fun _ => true, 0⟩]).outs = [⟨0, 5, 5⟩, ⟨1, 5, 5⟩] ∧
    Admitted ((machine (fun _ => SibRef.ospf6 2)).run (comesBack 2)
      [.helloSend 0 [] false, .deliver 0 ⟨fun _ => true, 0⟩, .helloSend 1 [] false,
        .deliver 1 ⟨fun _ => true, 0⟩]).outs :=
  ⟨by decide, admitted_of_run (restarted_comesBack 2) (by decide)⟩

/-- The two others vote while the first Hello is on its way. -/
def voteMeanwhile : List (Event 1) :=
  [.helloSend 0 [] false,
    .controller 0 (.recv (.ospf6 0) (.routeflowAllocXid .forwardOspf6 5 []) ⟨fun _ => true, 0⟩),
    .controller 0 (.recv (.ospf6 1) (.routeflowAllocXid .forwardOspf6 5 []) ⟨fun _ => true, 0⟩),
    .dbGet 0 false, .dbPut 0 .success, .deliver 0 ⟨fun _ => true, 0⟩]

/-- The Hello has the number 5 and the controller is at 6, so it rejects it. -/
theorem voteMeanwhile_not_admitted :
    ((machine (fun _ => SibRef.ospf6 2)).run (comesBack 1) voteMeanwhile).outs = [⟨0, 5, 6⟩] ∧
    ¬ ∀ (m : Nat) (slot : Fin m → SibRef) (s : System m) (es : List (Event m)), Restarted slot s →
      Admitted ((machine slot).run s es).outs := by
  have houts : ((machine (fun _ => SibRef.ospf6 2)).run (comesBack 1) voteMeanwhile).outs = [⟨0, 5, 6⟩] := by
    decide
  refine ⟨houts, fun h => ?_⟩
  have hadmitted := h 1 (fun _ => .ospf6 2) (comesBack 1) voteMeanwhile (restarted_comesBack 1)
  rw [houts] at hadmitted
  have hle : (6 : UInt32) ≤ 5 := hadmitted ⟨0, 5, 6⟩ List.mem_cons_self
  revert hle
  decide

end Harry.Readmission
