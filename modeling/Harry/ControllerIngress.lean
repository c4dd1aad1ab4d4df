import Mathlib.Algebra.Group.Int.Defs
import Harry.BaseExec
import Harry.RfpMessage

/-! The transaction ids of ingress packets. Every controller takes them from one key of the database, by a read and a
conditional write (`db_get_unique_ingress_id`); the write goes through only if nobody has written since the read. A
controller that does not get its number goes on with the return value of the failed call all the same. -/

namespace Harry.Ingress

open Harry.Base Harry.Rfp

/-- A call of `db_get_and_set` between its read and its write: the packet it is made for, `curr_xid` and the vector
clock of the read. -/
structure Call where
  msg : Rfpbuf
  currXid : Int
  vclock : Nat

/-- The key and what the controllers are doing with it. The contents of the key are the numbers its texts stand for; the
clock counts the writes that went through. -/
structure State where
  contents : List Int
  vclock : Nat
  calls : Nat → Option Call

/-- The message that `router_process_packet` forwards to the siblings of its controller. -/
structure Forward where
  controller : Nat
  msg : Rfpbuf

def Forward.xid (o : Forward) : UInt32 := o.msg.xid

inductive PutReply where
  | success
  /-- The write has failed, or its answer was lost. -/
  | failure (written : Bool)
  deriving DecidableEq

inductive Event where
  /-- A packet comes to a controller, which reads the key; the read may fail. -/
  | packet (controller : Nat) (msg : Rfpbuf) (fails : Bool)
  /-- The controller writes the key. -/
  | put (controller : Nat) (reply : PutReply)

/-- The bits of an `int`. -/
def uint32 (x : Int) : UInt32 := UInt32.ofNat (x % 2 ^ 32).toNat

/-- `INT_MAX`. -/
def intMax : Int := 2 ^ 31 - 1

namespace State

variable (s : State)

def setCall (c : Nat) (call : Option Call) : State := { s with calls := fun i => if i = c then call else s.calls i }

/-- `router_process_packet` with what `db_get_unique_ingress_id` has returned. -/
def forward (c : Nat) (msg : Rfpbuf) (xid : Int) : Exec Forward State := do
  Exec.emit ⟨c, msg.setXid (uint32 xid)⟩
  pure (s.setCall c none)

/-- `db_get_and_set` up to the write. A controller that is in a call does not take another packet. -/
def packet (c : Nat) (msg : Rfpbuf) (fails : Bool) : Exec Forward State :=
  if (s.calls c).isSome then pure s
  else if fails then s.forward c msg (-1)
  else match s.contents with
    | [value] => do
        Exec.require (value < intMax)
        pure (s.setCall c (some ⟨msg, value + 1, s.vclock⟩))
    | _ => s.forward c msg 0

/-- The write of `db_get_and_set`. -/
def put (c : Nat) (reply : PutReply) : Exec Forward State :=
  match s.calls c with
  | none => pure s
  | some call =>
      let written : State := { s with contents := [call.currXid], vclock := s.vclock + 1 }
      if call.vclock = s.vclock then
        match reply with
        | .success => written.forward c call.msg call.currXid
        | .failure applied => (if applied then written else s).forward c call.msg (-1)
      else s.forward c call.msg (-1)

def step : Event → Exec Forward State
  | .packet c msg fails => s.packet c msg fails
  | .put c reply => s.put c reply

end State

/-- Any number of controllers and the key, in any interleaving. -/
def machine : Machine State Event Forward := ⟨State.step⟩

/-- Nobody is in a call. -/
def start (contents : List Int) : State := ⟨contents, 0, fun _ => none⟩

/-- No two packets have gone out under one id. -/
def Distinct (os : List Forward) : Prop := (os.map Forward.xid).Nodup

/-- The ids of one controller go up. -/
def Increasing (os : List Forward) (c : Nat) : Prop :=
  ((os.filter fun o => o.controller = c).map Forward.xid).Pairwise (· < ·)

instance (os : List Forward) (c : Nat) : Decidable (Increasing os c) :=
  inferInstanceAs (Decidable (((os.filter fun o => o.controller = c).map Forward.xid).Pairwise (· < ·)))

/-- The call gets its number: the read goes through and finds one number that is not negative, and the write goes
through. -/
def StepGetsNumber (s : State) : Event → Prop
  | .packet c _ fails => (s.calls c).isSome = true ∨
    fails = false ∧ s.contents.length = 1 ∧ ∀ value ∈ s.contents, 0 ≤ value
  | .put c reply => ∀ call ∈ s.calls c, reply = .success ∧ call.vclock = s.vclock

instance (s : State) (e : Event) : Decidable (StepGetsNumber s e) :=
  match e with
  | .packet c _ fails => inferInstanceAs (Decidable ((s.calls c).isSome = true ∨ fails = false ∧ s.contents.length = 1 ∧
      ∀ value ∈ s.contents, 0 ≤ value))
  | .put c reply => inferInstanceAs (Decidable (∀ call ∈ s.calls c, reply = .success ∧ call.vclock = s.vclock))

/-! ### The invariant -/

/-- All ids that went out are at most the number in the key, in the order in which they went out, and a call whose write
would go through has the next number. -/
structure Counted (os : List Forward) (s : State) : Prop where
  pairwise : (os.map Forward.xid).Pairwise (· < ·)
  forwarded_le : ∀ o ∈ os, ∃ value, s.contents = [value] ∧ (o.xid.toNat : Int) ≤ value
  call_next : ∀ c call, s.calls c = some call → call.vclock = s.vclock →
    ∃ value, s.contents = [value] ∧ 0 ≤ value ∧ value < intMax ∧ call.currXid = value + 1
  vclock_le : ∀ c call, s.calls c = some call → call.vclock ≤ s.vclock

theorem uint32_toNat {x : Int} (h0 : 0 ≤ x) (h1 : x < 2 ^ 32) : ((uint32 x).toNat : Int) = x := by
  rw [uint32, UInt32.toNat_ofNat']
  omega

section Step

variable {os : List Forward} {s : State}

/-- A call of a controller: the new one, or one of before. -/
theorem calls_setCall {c i : Nat} {call : Option Call} {call' : Call} (h : (s.setCall c call).calls i = some call') :
    call = some call' ∨ s.calls i = some call' := by
  unfold State.setCall at h
  by_cases hi : i = c
  · simp only [if_pos hi] at h
    exact .inl h
  · simp only [if_neg hi] at h
    exact .inr h

theorem Counted.read (h : Counted os s) {c : Nat} (msg : Rfpbuf) {value : Int} (hcontents : s.contents = [value])
    (h0 : 0 ≤ value) (hmax : value < intMax) : Counted os (s.setCall c (some ⟨msg, value + 1, s.vclock⟩)) where
  pairwise := h.pairwise
  forwarded_le := h.forwarded_le
  call_next := by
    intro i call hcall hclock
    rcases calls_setCall hcall with heq | hold
    · cases heq
      exact ⟨value, hcontents, h0, hmax, rfl⟩
    · exact h.call_next i call hold hclock
  vclock_le := by
    intro i call hcall
    rcases calls_setCall hcall with heq | hold
    · cases heq
      exact Nat.le_refl _
    · exact h.vclock_le i call hold

theorem Counted.written (h : Counted os s) {c : Nat} {call : Call} (hcall : s.calls c = some call)
    (hclock : call.vclock = s.vclock) :
    Counted (os ++ [⟨c, call.msg.setXid (uint32 call.currXid)⟩])
      (({ s with contents := [call.currXid], vclock := s.vclock + 1 } : State).setCall c none) := by
  obtain ⟨value, hcontents, h0, hmax, hnext⟩ := h.call_next c call hcall hclock
  have hxid : ((uint32 call.currXid).toNat : Int) = value + 1 := by
    rw [hnext]
    unfold intMax at hmax
    exact uint32_toNat (by omega) (by omega)
  have hle : ∀ o ∈ os, (o.xid.toNat : Int) ≤ value := by
    intro o ho
    obtain ⟨value', hcontents', hle⟩ := h.forwarded_le o ho
    cases hcontents'.symm.trans hcontents
    exact hle
  constructor
  case pairwise =>
    rw [List.map_append, List.pairwise_append]
    refine ⟨h.pairwise, List.pairwise_singleton _ _, ?_⟩
    intro x hx y hy
    obtain ⟨o, ho, rfl⟩ := List.mem_map.mp hx
    cases List.mem_singleton.mp hy
    rw [Forward.xid, Forward.xid, Rfpbuf.xid_setXid, UInt32.lt_iff_toNat_lt]
    have := hle o ho
    unfold Forward.xid at this
    omega
  case forwarded_le =>
    intro o ho
    refine ⟨call.currXid, rfl, ?_⟩
    rcases List.mem_append.mp ho with ho | ho
    · have := hle o ho
      omega
    · cases List.mem_singleton.mp ho
      apply Int.le_of_eq
      rw [Forward.xid, Rfpbuf.xid_setXid, hxid, hnext]
  case call_next =>
    intro i call' hcall' hclock'
    rcases calls_setCall hcall' with heq | hold
    · cases heq
    · have hlt := h.vclock_le i call' hold
      simp only [State.setCall] at hclock'
      omega
  case vclock_le =>
    intro i call' hcall'
    rcases calls_setCall hcall' with heq | hold
    · cases heq
    · exact Nat.le_succ_of_le (h.vclock_le i call' hold)

/-- A step without output. -/
theorem Counted.silent (h : Counted os s) {x : Exec Forward State} (houts : x.outs = [])
    (hx : ∀ t, x.result = some t → Counted os t) :
    ((os ++ x.outs).map Forward.xid).Pairwise (· < ·) ∧ ∀ t, x.result = some t → Counted (os ++ x.outs) t := by
  rw [houts, List.append_nil]
  exact ⟨h.pairwise, hx⟩

/-- One step keeps the count. -/
theorem Counted.step (h : Counted os s) {e : Event} (he : StepGetsNumber s e) :
    ((os ++ (s.step e).outs).map Forward.xid).Pairwise (· < ·) ∧
      ∀ t, (s.step e).result = some t → Counted (os ++ (s.step e).outs) t := by
  cases e with
  | packet c msg fails =>
      simp only [State.step, State.packet]
      by_cases hbusy : (s.calls c).isSome
      · rw [if_pos hbusy]
        apply h.silent rfl
        rintro t ⟨⟩
        exact h
      · obtain hbusy' | ⟨rfl, hone, h0⟩ := he
        · exact absurd hbusy' hbusy
        obtain ⟨value, hcontents⟩ := List.length_eq_one_iff.mp hone
        replace h0 : 0 ≤ value := h0 value (hcontents ▸ List.mem_cons_self)
        rw [if_neg hbusy, if_neg Bool.false_ne_true, hcontents]
        dsimp only
        by_cases hmax : value < intMax
        · rw [Exec.bind_of_some _ (if_pos hmax)]
          apply h.silent rfl
          rintro t ⟨⟩
          exact h.read msg hcontents h0 hmax
        · have hno : (Exec.require (value < intMax) : Exec Forward Unit).result = none := if_neg hmax
          rw [Exec.bind_of_none _ hno]
          apply h.silent rfl
          rintro t ⟨⟩
  | put c reply =>
      simp only [State.step, State.put]
      cases hcall : s.calls c with
      | none =>
          apply h.silent rfl
          rintro t ⟨⟩
          exact h
      | some call =>
          obtain ⟨rfl, hclock⟩ := he call hcall
          simp only [if_pos hclock]
          have hwritten := h.written hcall hclock
          refine ⟨hwritten.pairwise, ?_⟩
          rintro t ⟨⟩
          exact hwritten

end Step

/-- In every run in which every call gets its number, all ids are different and those of one controller go up. -/
theorem uniqueIngress_of_run (contents : List Int) {es : List Event}
    (hall : machine.AllSteps StepGetsNumber (start contents) es) :
    Distinct (machine.run (start contents) es).outs ∧
      ∀ c, Increasing (machine.run (start contents) es).outs c := by
  have hnone : ∀ c call, (start contents).calls c ≠ some call := by
    intro c call hcall
    cases hcall
  have h0 : Counted [] (start contents) :=
    { pairwise := .nil
      forwarded_le := fun o ho => absurd ho List.not_mem_nil
      call_next := fun c call hcall _ => absurd hcall (hnone c call)
      vclock_le := fun c call hcall => absurd hcall (hnone c call) }
  obtain ⟨hpair, -⟩ := machine.run_outputs_of_allSteps
    (Q := fun os => (os.map Forward.xid).Pairwise (· < ·)) h0 .nil hall fun os s e h he => h.step he
  rw [List.nil_append] at hpair
  constructor
  · apply hpair.imp
    intro x y hlt heq
    exact UInt32.lt_irrefl x (heq ▸ hlt)
  · intro c
    exact hpair.sublist (List.filter_sublist.map _)

/-- A packet of no contents. -/
def anyPacket : Rfpbuf := .routeflowAllocXid .forwardOspf6 0 []

/-- Two controllers, one after the other. -/
def inTurn : List Event :=
  [.packet 0 anyPacket false, .put 0 .success, .packet 1 anyPacket false, .put 1 .success]

theorem uniqueIngress_inTurn : Distinct (machine.run (start [0]) inTurn).outs ∧
    ∀ c, Increasing (machine.run (start [0]) inTurn).outs c := by
  apply uniqueIngress_of_run
  decide

/-- Two controllers at the same time, and the one that lost once more. -/
def atOnce : List Event :=
  [.packet 0 anyPacket false, .packet 1 anyPacket false, .put 0 .success, .put 1 .success,
    .packet 1 anyPacket false, .put 1 .success]

/-- The write of the second controller is refused, and its packet goes out under `0xffffffff`. -/
theorem atOnce_not_increasing : ¬ Increasing (machine.run (start [0]) atOnce).outs 1 := by
  decide

end Harry.Ingress
