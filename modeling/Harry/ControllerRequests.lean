import Harry.ControllerHandshake
import Harry.ControllerReadmission

/-! The requests of one sibling's handshake, in whatever order and with whatever ids they come. A request that the
state names expect is counted, answered and moves the sibling on. The branch of the interface-address request has a
condition that is true in every state, so it also counts and answers where there is no move. -/

open Harry.Base Harry.Rfp

namespace Harry.Controller

/-- The condition on the state in the branch of a request. -/
def requestExpects : RfpType → SibRouterState → Bool
  | .featuresRequest, s => featuresExpects s
  | .ifAddressReq, s => ifAddressExpects s
  | .redistributeRequest, s => redistributeExpects s
  | _, _ => false

/-- The request of the sibling at `k` that an event gets accepted. -/
def accepts (k : SibRef) (c : State) : Event → Option RfpType
  | .recv k' msg _ =>
    if k' = k then (c.sib k).bind fun sr => msg.type.filter fun type =>
      decide (sr.state ≠ .disconnected ∧ msg.xid = sr.currentEgressXid) && requestExpects type sr.state
    else none
  | _ => none

/-- The requests of the sibling at `k` that a run gets accepted, in order. -/
def acceptedRequests (k : SibRef) : State → List Event → List RfpType
  | _, [] => []
  | c, e :: es => (accepts k c e).toList ++ (machine.step c e).result.elim [] (acceptedRequests k · es)

/-- The request is one that the state of the sibling has a next state for, with the expected id. -/
def InPlace (sr : SibRouter) (msg : Rfpbuf) : Prop :=
  msg.xid = sr.currentEgressXid ∧ (requestNext msg.type sr.state).isSome = true

instance (sr : SibRouter) (msg : Rfpbuf) : Decidable (InPlace sr msg) :=
  inferInstanceAs (Decidable (msg.xid = sr.currentEgressXid ∧ (requestNext msg.type sr.state).isSome = true))

/-- The message is one of the three requests. -/
def Rfpbuf.isHandshake (msg : Rfpbuf) : Bool := msg.type.any isRequest

/-- A run of the handshake as it is meant: the sibling routes only after one request of each type, the address request
after the features request, and a request that is out of place has no effect and no answer. -/
structure Orderly (k : SibRef) (c : State) (es : List Event) : Prop where
  routing : ∀ pre post c' sr, es = pre ++ post → (machine.run c pre).result = some c' → c'.sib k = some sr →
    sr.state = .routing →
      (acceptedRequests k c pre).Perm [.featuresRequest, .ifAddressReq, .redistributeRequest] ∧
        [.featuresRequest, .ifAddressReq].Sublist (acceptedRequests k c pre)
  refused : ∀ pre post c' sr msg env, es = pre ++ .recv k msg env :: post →
    (machine.run c pre).result = some c' → c'.sib k = some sr → Rfpbuf.isHandshake msg = true → ¬ InPlace sr msg →
    (machine.step c' (.recv k msg env)).outs = [] ∧ ∃ t sr', (machine.step c' (.recv k msg env)).result = some t ∧
      t.sib k = some sr' ∧ sr'.state = sr.state ∧ sr'.currentEgressXid = sr.currentEgressXid

/-- The event is an address request of the sibling with the expected id, in a state other than the two that expect
one. -/
def strayAddressReq (k : SibRef) (c : State) : Event → Bool
  | .recv k' msg _ => decide (k' = k ∧ msg.type = some .ifAddressReq) && (c.sib k).any fun sr =>
      decide (sr.state ≠ .disconnected ∧ msg.xid = sr.currentEgressXid) && (ifAddressNext sr.state).isNone
  | _ => false

/-- The orders in which requests can have led to a state. -/
def orders : SibRouterState → List (List RfpType)
  | .connecting | .connected => [[]]
  | .featuresReqRcvd => [[.featuresRequest]]
  | .redistributeReqRcvd => [[.redistributeRequest]]
  | .featuresRedisReqRcvd =>
    [[.featuresRequest, .redistributeRequest], [.redistributeRequest, .featuresRequest]]
  | .featuresAddrReqRcvd => [[.featuresRequest, .ifAddressReq]]
  | .routing =>
    [[.featuresRequest, .redistributeRequest, .ifAddressReq], [.redistributeRequest, .featuresRequest, .ifAddressReq],
      [.featuresRequest, .ifAddressReq, .redistributeRequest]]
  | .disconnected => []

theorem perm_of_mem_orders {acc : List RfpType} (h : acc ∈ orders .routing) :
    acc.Perm [.featuresRequest, .ifAddressReq, .redistributeRequest] ∧
      [.featuresRequest, .ifAddressReq].Sublist acc := by
  simp only [orders, List.mem_cons, List.not_mem_nil, or_false] at h
  rcases h with rfl | rfl | rfl <;> decide

/-- A request that has a next state is expected and adds to the order. -/
theorem orders_next {type : RfpType} {s new : SibRouterState} (h : requestNext (some type) s = some new) :
    requestExpects type s = true ∧ new ≠ .disconnected ∧ ∀ acc ∈ orders s, acc ++ [type] ∈ orders new := by
  cases type <;> simp only [requestNext, reduceCtorEq] at h <;> cases s <;>
    simp only [featuresNext, ifAddressNext, redistributeNext, reduceCtorEq, Option.some.injEq] at h <;>
    subst h <;> refine ⟨rfl, by decide, ?_⟩ <;> simp [orders]

/-- Apart from the address request, only what has a next state is expected. -/
theorem requestExpects_of_next_none {type : RfpType} {s : SibRouterState} (h : requestNext (some type) s = none)
    (htype : type ≠ .ifAddressReq) : requestExpects type s = false := by
  cases type <;> first | rfl | exact absurd rfl htype | skip
  all_goals cases s <;> first | rfl | cases h

section Step

variable {k : SibRef} {c c' : State} {e : Event} {sr : SibRouter} {msg : Rfpbuf} {env : Env}

theorem accepts_recv (hsr : c.sib k = some sr) (hstate : sr.state ≠ .disconnected) {type : RfpType}
    (htype : msg.type = some type) : accepts k c (.recv k msg env) =
      if msg.xid = sr.currentEgressXid ∧ requestExpects type sr.state = true then some type else none := by
  simp only [accepts, if_true, hsr, Option.bind_some, htype, Option.filter_some, hstate, ne_eq, not_false_eq_true,
    true_and, Bool.and_eq_true, decide_eq_true_eq]

/-- A request in its place, or refused. -/
theorem orders_request {type : RfpType} (hsr : c.sib k = some sr) (hstate : sr.state ≠ .disconnected)
    (htype : msg.type = some type) (hreq : isRequest type = true)
    (hstray : strayAddressReq k c (.recv k msg env) = false)
    (hstep : (machine.step c (.recv k msg env)).result = some c') :
    ∃ sr', c'.sib k = some sr' ∧ sr'.state ≠ .disconnected ∧
      ∀ acc ∈ orders sr.state, acc ++ (accepts k c (.recv k msg env)).toList ∈ orders sr'.state := by
  have hslot : SlotAt c k sr.state sr.currentEgressXid := ⟨sr, hsr, rfl, rfl⟩
  obtain ⟨sr', hsr', hstate', -⟩ := hslot.request_step hstate htype hreq hstep
  refine ⟨sr', hsr', ?_⟩
  rw [hstate', accepts_recv hsr hstate htype]
  unfold requestStep
  by_cases hxid : msg.xid = sr.currentEgressXid
  · cases hnext : requestNext (some type) sr.state with
    | some new =>
        obtain ⟨hexpects, hnew, horders⟩ := orders_next hnext
        simpa only [hxid, hexpects, and_self, if_true] using ⟨hnew, horders⟩
    | none =>
        have hne : type ≠ .ifAddressReq := by
          rintro rfl
          have hnone : ifAddressNext sr.state = none := hnext
          simp [strayAddressReq, htype, hsr, hstate, hxid, hnone] at hstray
        simpa [hxid, hne, requestExpects_of_next_none hnext hne] using hstate
  · simpa [hxid] using hstate

/-- What an event other than a request of the sibling can do to its state. -/
theorem state_of_slotStep {new : SibRouter} (hsr : c.sib k = some sr) (hstate : sr.state ≠ .disconnected)
    (hdestroy : e ≠ .destroy k) (hreq : ∀ msg env, e = .recv k msg env → Rfpbuf.isHandshake msg = false)
    (h : SlotStep c e k new) : new.state = sr.state ∨ sr.state = .connecting ∧ new.state = .connected := by
  have hold : ∀ {old}, c.sib k = some old → old = sr := fun hk => Option.some.inj (hk.symm.trans hsr)
  cases h with
  | same hk =>
      cases hold hk
      exact Or.inl rfl
  | opened raw hk =>
      rw [hsr] at hk
      cases hk
  | reused hk hdisc =>
      cases hold hk
      exact absurd hdisc hstate
  | started hk hconn =>
      cases hold hk
      exact Or.inr ⟨hconn, rfl⟩
  | destroyed hk => exact absurd rfl hdestroy
  | ingressSent hk =>
      cases hold hk
      unfold SibRouter.ingressSent
      split_ifs <;> exact Or.inl rfl
  | @moved _ msg env _ new hk hxid hnext =>
      have hno := hreq msg env rfl
      cases htype : msg.type with
      | none => simp [htype, requestNext] at hnext
      | some type =>
          rw [Rfpbuf.isHandshake, htype, Option.any_some] at hno
          cases type <;> simp [htype, requestNext, isRequest] at hnext hno
  | @bumped _ msg env _ hk htype hxid hnext =>
      have hno := hreq msg env rfl
      rw [Rfpbuf.isHandshake, htype] at hno
      cases hno
  | queued hk hdisc hsib hxid =>
      cases hold hk
      have hsame := egressSib_state hsib
      exact Or.inl hsame
  | rejected hk hsib hxid =>
      cases hold hk
      exact Or.inl (egressSib_state hsib)
  | acked hk =>
      cases hold hk
      exact Or.inl rfl
  | leader hk htype b =>
      cases hold hk
      exact Or.inl rfl

theorem accepts_of_not_request (hreq : ∀ msg env, e = .recv k msg env → Rfpbuf.isHandshake msg = false) :
    accepts k c e = none := by
  cases e with
  | recv k' msg env =>
      by_cases hk : k' = k
      · subst hk
        have hno := hreq msg env rfl
        simp only [accepts, if_true]
        cases hsr : c.sib k' with
        | none => rfl
        | some sr =>
            cases htype : msg.type with
            | none => rfl
            | some type =>
                rw [Rfpbuf.isHandshake, htype, Option.any_some] at hno
                cases type <;> simp [isRequest, requestExpects] at hno ⊢
      · simp [accepts, hk]
  | _ => rfl

/-- The step lemma: what has been accepted stays one of the orders that lead to the state. -/
theorem orders_step (hsr : c.sib k = some sr) (hstate : sr.state ≠ .disconnected) (hdestroy : e ≠ .destroy k)
    (hstray : strayAddressReq k c e = false) (hstep : (machine.step c e).result = some c') :
    ∃ sr', c'.sib k = some sr' ∧ sr'.state ≠ .disconnected ∧
      ∀ acc ∈ orders sr.state, acc ++ (accepts k c e).toList ∈ orders sr'.state := by
  by_cases hreq : ∃ msg env, e = .recv k msg env ∧ Rfpbuf.isHandshake msg = true
  · obtain ⟨msg, env, rfl, hmsg⟩ := hreq
    obtain ⟨type, htype, hreq⟩ := (Option.any_eq_true _ _).mp hmsg
    exact orders_request hsr hstate htype hreq hstray hstep
  · have hnot : ∀ msg env, e = .recv k msg env → Rfpbuf.isHandshake msg = false := by
      intro msg env he
      exact Bool.eq_false_iff.mpr fun hmsg => hreq ⟨msg, env, he, hmsg⟩
    rw [accepts_of_not_request hnot]
    have hquiet : ∀ c1, Stepped c e c1 → ∃ sr', c1.sib k = some sr' ∧
        (sr'.state = sr.state ∨ sr.state = .connecting ∧ sr'.state = .connected) := by
      intro c1 hc1
      obtain ⟨sr', hsr'⟩ := Option.isSome_iff_exists.mp
        (Readmission.isSome_sib_of_stepped hc1 (by rw [hsr, Option.isSome_some]))
      exact ⟨sr', hsr', state_of_slotStep hsr hstate hdestroy hnot (hc1.slot hsr')⟩
    obtain ⟨sr', hsr', hsame⟩ : ∃ sr', c'.sib k = some sr' ∧
        (sr'.state = sr.state ∨ sr.state = .connecting ∧ sr'.state = .connected) := by
      apply step_invariant hquiet _ hstep
      rintro c1 ⟨sr1, hsr1, hsame⟩
      rw [sib_voted]
      cases k with
      | ospf6 i => exact ⟨bumpEgressXid (popHead sr1), by rw [hsr1]; rfl, hsame⟩
      | bgp i => exact ⟨sr1, hsr1, hsame⟩
    refine ⟨sr', hsr', ?_⟩
    simp only [Option.toList_none, List.append_nil]
    rcases hsame with hsame | ⟨hconn, hconn'⟩
    · rw [hsame]
      exact ⟨hstate, fun acc hacc => hacc⟩
    · rw [hconn, hconn']
      exact ⟨nofun, fun acc hacc => hacc⟩

/-- A request that is out of place, and no address request with the expected id, is ignored. -/
theorem step_of_not_inPlace (hsr : c.sib k = some sr) (hmsg : Rfpbuf.isHandshake msg = true) (hnot : ¬ InPlace sr msg)
    (hstray : strayAddressReq k c (.recv k msg env) = false) :
    machine.step c (.recv k msg env) = pure c := by
  obtain ⟨type, htype, hreq⟩ := (Option.any_eq_true _ _).mp hmsg
  simp only [machine, step, hsr]
  split_ifs with hstate
  · rfl
  · have hrefused : ∀ {expects reply next}, (msg.xid = sr.currentEgressXid → expects sr.state = false) →
        handshakeRequest k msg.xid expects reply next sr c = pure c := by
      intro expects reply next hexpects
      unfold handshakeRequest
      refine if_neg fun hcond => ?_
      rw [hexpects hcond.1] at hcond
      exact Bool.false_ne_true hcond.2
    have hnone : msg.xid = sr.currentEgressXid → requestNext (some type) sr.state = none := by
      intro hxid
      by_contra hsome
      exact hnot ⟨hxid, by rw [htype]; exact Option.isSome_iff_ne_none.mpr hsome⟩
    have hexpects : type ≠ .ifAddressReq → msg.xid = sr.currentEgressXid → requestExpects type sr.state = false :=
      fun hne hxid => requestExpects_of_next_none (hnone hxid) hne
    rw [sibRouterProcessPacket, hsr, Exec.deref_some_bind, htype]
    simp only [isRequest, Bool.or_eq_true, decide_eq_true_eq] at hreq
    rcases hreq with (rfl | rfl) | rfl
    · exact hrefused (hexpects (by decide))
    · exact hrefused (hexpects (by decide))
    · refine hrefused fun hxid => ?_
      have hnext : ifAddressNext sr.state = none := hnone hxid
      simp [strayAddressReq, htype, hsr, hstate, hxid, hnext] at hstray

/-- An address request with the expected id is counted in whatever state it finds the sibling. -/
theorem step_of_stray (hsr : c.sib k = some sr) (hstray : strayAddressReq k c (.recv k msg env) = true) :
    Rfpbuf.isHandshake msg = true ∧ ¬ InPlace sr msg ∧
      (machine.step c (.recv k msg env)).result = some (c.setSib k (bumpEgressXid sr)) := by
  simp only [strayAddressReq, true_and, hsr, Option.any_some, Bool.and_eq_true, decide_eq_true_eq,
    Option.isNone_iff_eq_none] at hstray
  obtain ⟨htype, ⟨hstate, hxid⟩, hnext⟩ := hstray
  refine ⟨by rw [Rfpbuf.isHandshake, htype]; rfl, ?_, ?_⟩
  · rintro ⟨-, hsome⟩
    rw [htype] at hsome
    simp [requestNext, hnext] at hsome
  · simp only [machine, step, hsr, hstate, if_false, sibRouterProcessPacket, Exec.deref_some_bind, htype,
      handshakeRequest, hxid, ifAddressExpects, Bool.or_true, and_self, if_true, hnext, Exec.result_bind,
      Exec.result_pure]
    rfl

end Step

/-! ### Runs -/

section Run

variable {k : SibRef} {c c' : State} {es : List Event} {sr : SibRouter}

/-- The run lemma: after any part of the run, what has been accepted is one of the orders that lead to the state. -/
theorem orders_run (acc : List RfpType) (hsr : c.sib k = some sr) (hstate : sr.state ≠ .disconnected)
    (hacc : acc ∈ orders sr.state) (hdestroy : ∀ e ∈ es, e ≠ .destroy k)
    (hall : machine.AllSteps (fun c e => strayAddressReq k c e = false) c es)
    (hrun : (machine.run c es).result = some c') :
    ∃ sr', c'.sib k = some sr' ∧ acc ++ acceptedRequests k c es ∈ orders sr'.state := by
  induction es generalizing c sr acc with
  | nil =>
      cases hrun
      exact ⟨sr, hsr, by rwa [acceptedRequests, List.append_nil]⟩
  | cons e es ih =>
      rw [machine.run_cons, Exec.result_bind_eq_some] at hrun
      obtain ⟨c1, hc1, hrest⟩ := hrun
      obtain ⟨sr1, hsr1, hstate1, horders⟩ := orders_step hsr hstate (hdestroy e List.mem_cons_self) hall.1 hc1
      obtain ⟨sr', hsr', hmem⟩ := ih _ hsr1 hstate1 (horders acc hacc)
        (fun e' he' => hdestroy e' (List.mem_cons_of_mem e he')) (hall.2 c1 hc1) hrest
      refine ⟨sr', hsr', ?_⟩
      rw [acceptedRequests, hc1, Option.elim_some, ← List.append_assoc]
      exact hmem

/-- The handshake of a sibling that is being connected is as it is meant exactly in the runs in which no address
request with the expected id comes in a state that does not expect one. -/
theorem orderly_iff (hsr : c.sib k = some sr) (hstate : sr.state = .connecting) (hdestroy : ∀ e ∈ es, e ≠ .destroy k) :
    Orderly k c es ↔ machine.AllSteps (fun c e => strayAddressReq k c e = false) c es := by
  have hconn : sr.state ≠ .disconnected := by simp [hstate]
  constructor
  · intro h
    refine machine.allSteps_of_forall fun pre e post c1 hes hrun => ?_
    by_contra hstray
    rw [Bool.not_eq_false] at hstray
    cases e with
    | recv k' msg env =>
        have hk : k' = k := by
          simp only [strayAddressReq, Bool.and_eq_true, decide_eq_true_eq] at hstray
          exact hstray.1.1
        subst hk
        cases hsr1 : c1.sib k' with
        | none => simp [strayAddressReq, hsr1] at hstray
        | some sr1 =>
            obtain ⟨hmsg, hnot, hstep⟩ := step_of_stray hsr1 hstray
            obtain ⟨-, t, sr', ht, hsr', -, hxid⟩ := h.refused pre post c1 sr1 msg env hes hrun hsr1 hmsg hnot
            rw [hstep] at ht
            cases ht
            rw [State.sib_setSib hsr1, if_pos rfl] at hsr'
            cases hsr'
            simp [bumpEgressXid] at hxid
    | _ => cases hstray
  · intro hall
    refine ⟨fun pre post c1 sr1 hes hrun hsr1 hrouting => ?_, fun pre post c1 sr1 msg env hes hrun hsr1 hmsg hnot => ?_⟩
    · subst hes
      obtain ⟨sr', hsr', hmem⟩ := orders_run [] hsr hconn (by rw [hstate]; exact List.mem_singleton.mpr rfl)
        (fun e he => hdestroy e (List.mem_append_left _ he)) (Machine.AllSteps.left machine hall) hrun
      rw [hsr1] at hsr'
      cases hsr'
      rw [hrouting] at hmem
      exact perm_of_mem_orders hmem
    · subst hes
      have hstray := (Machine.AllSteps.of_append machine hall hrun).2
      rw [step_of_not_inPlace hsr1 hmsg hnot hstray]
      exact ⟨rfl, c1, sr1, rfl, hsr1, rfl, rfl⟩

end Run

/-- A sibling asks for one thing after another. -/
theorem orderly_of_one : ∃ c, (machine.run (State.sibRouterInit [⟨[]⟩] [] 1 .all) [.acceptOspf6 zeroedSib]).result =
    some c ∧ Orderly (.ospf6 0) c (handshake 0) := by
  obtain ⟨c, hc, hsr, hall⟩ := exists_of_any
    (p := fun c => ((c.sib (.ospf6 0)).any fun sr => decide (sr.state = .connecting)) = true ∧
      machine.AllSteps (fun c e => strayAddressReq (.ospf6 0) c e = false) c (handshake 0))
    (o := (machine.run (State.sibRouterInit [⟨[]⟩] [] 1 .all) [.acceptOspf6 zeroedSib]).result) (by decide)
  obtain ⟨sr, hsr, hstate⟩ := exists_of_any hsr
  refine ⟨c, hc, (orderly_iff hsr hstate fun e he => ?_).mpr hall⟩
  rintro rfl
  simp [handshake] at he

/-- The request for the addresses, with the id a sibling begins with. -/
def earlyAddressReq : Rfpbuf := .routeflowAllocXid .ifAddressReq 0 []

/-- Its first request is the one for the addresses; it is counted, and answered in the same way. -/
theorem not_orderly_of_early_address : ∃ c,
    (machine.run (State.sibRouterInit [⟨[]⟩] [] 1 .all) [.acceptOspf6 zeroedSib]).result = some c ∧
    (∃ sr, c.sib (.ospf6 0) = some sr ∧ sr.state = .connecting) ∧
    ¬ Orderly (.ospf6 0) c [.start (.ospf6 0), .recv (.ospf6 0) earlyAddressReq promptEnv] := by
  obtain ⟨c, hc, hsr, hrun⟩ := exists_of_any
    (p := fun c => ((c.sib (.ospf6 0)).any fun sr => decide (sr.state = .connecting)) = true ∧
      ((machine.run c [.start (.ospf6 0)]).result.any fun c1 => (c1.sib (.ospf6 0)).any fun sr1 =>
        !decide (InPlace sr1 earlyAddressReq) &&
        (machine.step c1 (.recv (.ospf6 0) earlyAddressReq promptEnv)).result.all fun t =>
          (t.sib (.ospf6 0)).all fun sr' => decide (sr'.currentEgressXid ≠ sr1.currentEgressXid)) = true)
    (o := (machine.run (State.sibRouterInit [⟨[]⟩] [] 1 .all) [.acceptOspf6 zeroedSib]).result) (by decide)
  refine ⟨c, hc, exists_of_any hsr, fun h => ?_⟩
  obtain ⟨c1, hc1, hslot⟩ := (Option.any_eq_true _ _).mp hrun
  obtain ⟨sr1, hsr1, hbump⟩ := (Option.any_eq_true _ _).mp hslot
  simp only [Bool.and_eq_true, Bool.not_eq_true', decide_eq_false_iff_not] at hbump
  obtain ⟨-, t, sr', ht, hsr', -, hxid⟩ :=
    h.refused [.start (.ospf6 0)] [] c1 sr1 earlyAddressReq promptEnv rfl hc1 hsr1 rfl hbump.1
  have hne := hbump.2
  rw [ht, Option.all_some, hsr', Option.all_some, decide_eq_true_eq] at hne
  exact hne hxid

end Harry.Controller
