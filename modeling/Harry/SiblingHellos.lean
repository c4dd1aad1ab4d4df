import Harry.SiblingStartup

/-! When a sibling schedules its Hellos, over the whole life of its clients: the connection to the controller, the Hello
of the controller, and from there on the events of the start. An interface that is not up when the Hellos are scheduled
has none scheduled later. -/

namespace Harry.Startup

open Harry.Base

inductive ClientEvent where
  /-- `ctrl_client_start` makes the connection and sends a Hello. -/
  | connect (client : Nat)
  /-- `RFPT_HELLO` is read. -/
  | hello (client : Nat)
  | sibling (e : Event)
  /-- The restart thread ends restart mode. -/
  | restartEnds
  deriving DecidableEq

/-- `ctrl_client_start`, which is called once for a client and not again when it fails. -/
def ctrlClientStart (s : State) (i : Nat) : M State :=
  match s.ctrlClients[i]? with
  | none => pure s
  | some c => pure (if c.state = .connecting then s.setClient i { c with state := .sentHello } else s)

/-- `ctrl_client_read` with a Hello. -/
def helloRead (s : State) (i : Nat) : M State :=
  match s.ctrlClients[i]? with
  | none => pure s
  | some c => pure (if c.state = .sentHello then s.setClient i { c with state := .rcvdHello } else s)

def clientStep (s : State) : ClientEvent → M State
  | .connect i => ctrlClientStart s i
  | .hello i => helloRead s i
  | .sibling e => step s e
  | .restartEnds => pure { s with restartMode := false }

def clientMachine : Machine State ClientEvent Output := ⟨clientStep⟩

/-- `sibling_ctrl_init` and `ctrl_client_init`. -/
def siblingCtrlInit (n : Nat) (restartMode firstXidMutex : Bool) : State where
  ctrlClients := List.replicate n ⟨.connecting, false⟩
  state := .init
  scheduledHellos := false
  restartMode := restartMode
  firstXidMutex := firstXidMutex
  restartedFirstEgressNotSent := false

/-- The step schedules Hellos; where a client does not know its interface, it ends with the search for a null name. -/
def SchedulesHellos (s : State) (e : ClientEvent) : Prop :=
  (∃ i, .hello i ∈ (clientStep s e).outs) ∨ (clientStep s e).result = none

/-- Hellos are scheduled only when all interfaces are up and their names are known. -/
def HellosWait (s : State) (e : ClientEvent) : Prop :=
  SchedulesHellos s e → checkAllInterfaceUp s = true ∧ ∀ c ∈ s.ctrlClients, c.interfaceNamed = true

/-- The election is not completed in `SC_LEAD_ELECT_START`. -/
def CompletesInTurn (s : State) (e : ClientEvent) : Prop := ¬ (e = .sibling .leadElectCompl ∧ s.state = .leadElectStart)

instance (s : State) (e : ClientEvent) : Decidable (CompletesInTurn s e) := inferInstanceAs (Decidable (¬ _))

/-- `CTRL_INTERFACE_UP` or `CTRL_CONNECTED`. -/
def CtrlClient.isUp (c : CtrlClient) : Bool := c.state == .interfaceUp || c.state == .connected

/-- What the states of the clients and of the sibling have to do with each other. -/
structure Kept (s : State) : Prop where
  named : ∀ c ∈ s.ctrlClients, c.isUp = true → c.interfaceNamed = true
  ne_nil : s.state ≠ .init → s.ctrlClients ≠ []
  down : s.state = .init ∨ s.state = .leadElectStart → s.ctrlClients ≠ [] → checkAllInterfaceUp s = false
  up : s.state = .allIntUp ∨ s.state = .allIntUpLeadElectStart → checkAllInterfaceUp s = true
  notYet : s.state = .init ∨ s.state = .allIntUp ∨ s.state = .leadElectStart ∨ s.state = .allIntUpLeadElectStart →
    s.scheduledHellos = false

section Clients

variable {s : State} {i : Nat} {c c' : CtrlClient}

theorem checkAllInterfaceUp_eq (s : State) : checkAllInterfaceUp s = s.ctrlClients.all CtrlClient.isUp := rfl

theorem checkAllInterfaceUp_setClient (hc : s.ctrlClients[i]? = some c) (hup : c'.isUp = c.isUp) :
    checkAllInterfaceUp (s.setClient i c') = checkAllInterfaceUp s := by
  have hmap : (s.ctrlClients.set i c').map CtrlClient.isUp = s.ctrlClients.map CtrlClient.isUp := by
    apply List.ext_getElem?
    intro j
    rw [List.getElem?_map, List.getElem?_map, List.getElem?_set]
    split
    case isTrue hij =>
      subst hij
      have hlt := (List.getElem?_eq_some_iff.mp hc).1
      rw [if_pos hlt, hc, Option.map_some, Option.map_some, hup]
    case isFalse => rfl
  have hall (l : List CtrlClient) : l.all CtrlClient.isUp = (l.map CtrlClient.isUp).all id := by
    rw [List.all_map]
    rfl
  rw [checkAllInterfaceUp_eq, checkAllInterfaceUp_eq, State.setClient, hall, hall, hmap]

theorem checkAllInterfaceUp_setClient_up (hup : c'.isUp = true) (h : checkAllInterfaceUp s = true) :
    checkAllInterfaceUp (s.setClient i c') = true := by
  rw [checkAllInterfaceUp_eq, List.all_eq_true] at h ⊢
  intro d hd
  rcases List.mem_or_eq_of_mem_set hd with hd | rfl
  · exact h d hd
  · exact hup

theorem named_setClient (h : Kept s) (hc : c'.isUp = true → c'.interfaceNamed = true) :
    ∀ d ∈ (s.setClient i c').ctrlClients, d.isUp = true → d.interfaceNamed = true := by
  intro d hd
  rcases List.mem_or_eq_of_mem_set hd with hd | rfl
  · exact h.named d hd
  · exact hc

theorem setClient_ne_nil (hc : s.ctrlClients[i]? = some c) : (s.setClient i c').ctrlClients ≠ [] := by
  intro hnil
  have hlt := (List.getElem?_eq_some_iff.mp hc).1
  have hlen := congrArg List.length hnil
  rw [State.setClient, List.length_set, List.length_nil] at hlen
  omega

/-- A client changes, but not from down to up. -/
theorem Kept.setClient (h : Kept s) (hc : s.ctrlClients[i]? = some c) (hup : c'.isUp = c.isUp)
    (hname : c.interfaceNamed = true → c'.interfaceNamed = true) : Kept (s.setClient i c') := by
  have hmem := List.mem_of_getElem? hc
  have hne : s.ctrlClients ≠ [] := List.ne_nil_of_mem hmem
  refine ⟨named_setClient h fun hup' => hname (h.named c hmem (hup ▸ hup')), fun _ => setClient_ne_nil hc, ?_,
    ?_, h.notYet⟩
  · intro hstate _
    rw [checkAllInterfaceUp_setClient hc hup]
    exact h.down hstate hne
  · intro hstate
    rw [checkAllInterfaceUp_setClient hc hup]
    exact h.up hstate

end Clients

/-- A step without Hellos. -/
def Quiet (x : M State) : Prop := (∀ i, .hello i ∉ x.outs) ∧ ∃ s', x.result = some s' ∧ Kept s'

section Steps

variable {s s' : State} {i : Nat} {c : CtrlClient}

theorem quiet_pure (h : Kept s) : Quiet (pure s) := ⟨fun _ => List.not_mem_nil, s, rfl, h⟩

theorem quiet_leaderElect (h : Kept s) : Quiet (Exec.emit .leaderElect >>= fun _ => pure s) := by
  refine ⟨fun i => ?_, s, rfl, h⟩
  rw [Exec.outs_emit_bind, Exec.outs_pure, List.mem_singleton]
  exact Output.noConfusion

/-- Whether all interfaces are up is seen to at once. -/
theorem updateIntUp_quiet (hnamed : ∀ c ∈ s.ctrlClients, c.isUp = true → c.interfaceNamed = true)
    (hne : s.ctrlClients ≠ []) (hup : s.state = .allIntUp ∨ s.state = .allIntUpLeadElectStart →
      checkAllInterfaceUp s = true)
    (hnotYet : s.state = .init ∨ s.state = .allIntUp ∨ s.state = .leadElectStart ∨ s.state = .allIntUpLeadElectStart →
      s.scheduledHellos = false) : Quiet (updateIntUp s) := by
  unfold updateIntUp
  split
  case h_1 hstate =>
    have hyet := hnotYet (.inl hstate)
    apply quiet_pure
    split
    case isTrue hall => exact ⟨hnamed, fun _ => hne, by simp, fun _ => hall, fun _ => hyet⟩
    case isFalse hall => exact ⟨hnamed, fun _ => hne, fun _ _ => eq_false_of_ne_true hall, hup, hnotYet⟩
  case h_2 hstate =>
    have hyet := hnotYet (.inr (.inr (.inl hstate)))
    apply quiet_pure
    split
    case isTrue hall => exact ⟨hnamed, fun _ => hne, by simp, fun _ => hall, fun _ => hyet⟩
    case isFalse hall => exact ⟨hnamed, fun _ => hne, fun _ _ => eq_false_of_ne_true hall, hup, hnotYet⟩
  case h_3 hstate =>
    apply quiet_pure
    split
    case isTrue => exact ⟨hnamed, fun _ => hne, by simp, by simp, by simp⟩
    case isFalse => exact ⟨hnamed, fun _ => hne, by simp [hstate], hup, hnotYet⟩
  case h_4 hinit hstart hcompl =>
    exact quiet_pure ⟨hnamed, fun _ => hne, fun hstate _ => (hstate.elim hinit hstart).elim, hup, hnotYet⟩

theorem updateLeadElectRcvd_quiet (h : Kept s) (hne : s.ctrlClients ≠ []) : Quiet (updateLeadElectRcvd s) := by
  unfold updateLeadElectRcvd
  split
  case h_1 hstate =>
    split
    case isTrue =>
      exact quiet_leaderElect ⟨h.named, fun _ => hne, fun _ => h.down (.inl hstate), by simp,
        fun _ => h.notYet (.inl hstate)⟩
    case isFalse => exact quiet_pure h
  case h_2 hstate =>
    split
    case isTrue =>
      exact quiet_leaderElect ⟨h.named, fun _ => hne, by simp, fun _ => h.up (.inl hstate),
        fun _ => h.notYet (.inr (.inl hstate))⟩
    case isFalse => exact quiet_pure h
  case h_3 =>
    split
    case isTrue => exact quiet_leaderElect ⟨h.named, fun _ => hne, by simp, by simp, by simp⟩
    case isFalse => exact quiet_pure h
  case h_4 => exact quiet_pure h

theorem interfaceUp_quiet (h : Kept s) (i : Nat) : Quiet (interfaceUp s i) := by
  unfold interfaceUp
  split
  case h_1 => exact quiet_pure h
  case h_2 c hc =>
    have hnew {c' : CtrlClient} (hup : c'.isUp = true) (hname : c'.interfaceNamed = true) :
        Quiet (updateIntUp (s.setClient i c')) :=
      updateIntUp_quiet (named_setClient h fun _ => hname) (setClient_ne_nil hc)
        (fun hstate => checkAllInterfaceUp_setClient_up hup (h.up hstate)) h.notYet
    simp only
    split
    case h_1 => exact hnew rfl rfl
    case h_2 => exact hnew rfl rfl
    case h_3 => exact quiet_pure (h.setClient hc rfl fun _ => rfl)

theorem leadElectRcvd_quiet (h : Kept s) (i : Nat) : Quiet (leadElectRcvd s i) := by
  unfold leadElectRcvd
  split
  case h_1 => exact quiet_pure h
  case h_2 c hc =>
    have hset {c' : CtrlClient} (hup : c'.isUp = c.isUp) (hname : c'.interfaceNamed = c.interfaceNamed) :
        Quiet (updateLeadElectRcvd (s.setClient i c')) :=
      updateLeadElectRcvd_quiet (h.setClient hc hup fun hold => hname ▸ hold) (setClient_ne_nil hc)
    split
    case h_1 hstate => exact hset (by rw [CtrlClient.isUp, CtrlClient.isUp, hstate]; rfl) rfl
    case h_2 hstate => exact hset (by rw [CtrlClient.isUp, CtrlClient.isUp, hstate]; rfl) rfl
    case h_3 => exact updateLeadElectRcvd_quiet h (List.ne_nil_of_mem (List.mem_of_getElem? hc))
    case h_4 => exact quiet_pure h

theorem ctrlClientStart_quiet (h : Kept s) (i : Nat) : Quiet (ctrlClientStart s i) := by
  unfold ctrlClientStart
  split
  case h_1 => exact quiet_pure h
  case h_2 c hc =>
    apply quiet_pure
    split
    case isTrue hstate => exact h.setClient hc (by rw [CtrlClient.isUp, CtrlClient.isUp, hstate]; rfl) id
    case isFalse => exact h

theorem helloRead_quiet (h : Kept s) (i : Nat) : Quiet (helloRead s i) := by
  unfold helloRead
  split
  case h_1 => exact quiet_pure h
  case h_2 c hc =>
    apply quiet_pure
    split
    case isTrue hstate => exact h.setClient hc (by rw [CtrlClient.isUp, CtrlClient.isUp, hstate]; rfl) id
    case isFalse => exact h

/-- Every step is quiet but the completion of a first election. -/
theorem clientStep_quiet (h : Kept s) {e : ClientEvent}
    (hne : ¬ (e = .sibling .leadElectCompl ∧ (s.state = .leadElectStart ∨ s.state = .allIntUpLeadElectStart))) :
    Quiet (clientStep s e) := by
  cases e with
  | connect i => exact ctrlClientStart_quiet h i
  | hello i => exact helloRead_quiet h i
  | restartEnds => exact quiet_pure ⟨h.named, h.ne_nil, h.down, h.up, h.notYet⟩
  | sibling e =>
      cases e with
      | interfaceUp i => exact interfaceUp_quiet h i
      | leaderElect i => exact leadElectRcvd_quiet h i
      | leadElectCompl =>
          show Quiet (updateLeadElectCompl s)
          unfold updateLeadElectCompl
          split
          case h_1 hstate => exact absurd ⟨rfl, .inl hstate⟩ hne
          case h_2 hstate => exact absurd ⟨rfl, .inr hstate⟩ hne
          case h_3 hstate =>
            have hclients := h.ne_nil (by simp [hstate])
            exact quiet_pure ⟨h.named, fun _ => hclients, by simp, by simp, by simp⟩
          case h_4 => exact quiet_pure h

theorem Quiet.not_schedules {e : ClientEvent} (h : Quiet (clientStep s e)) : ¬ SchedulesHellos s e := by
  obtain ⟨houts, s', hs', -⟩ := h
  rintro (⟨i, hi⟩ | hnone)
  · exact houts i hi
  · rw [hs'] at hnone
    cases hnone

/-- The completion of a first election schedules a Hello at once, or ends with a null name. -/
theorem leadElectCompl_schedules (h : Kept s) (hstate : s.state = .leadElectStart ∨ s.state = .allIntUpLeadElectStart) :
    SchedulesHellos s (.sibling .leadElectCompl) ∧
      ∀ s', (clientStep s (.sibling .leadElectCompl)).result = some s' → Kept s' := by
  obtain ⟨next, hnext, hstep⟩ : ∃ next : ScState, (next = .leadElectCompl ∨ next = .readyToSend) ∧
      clientStep s (.sibling .leadElectCompl) = electionComplete { s with state := next } := by
    rcases hstate with hstate | hstate
    · exact ⟨.leadElectCompl, .inl rfl, by simp only [clientStep, step, updateLeadElectCompl, hstate]⟩
    · exact ⟨.readyToSend, .inr rfl, by simp only [clientStep, step, updateLeadElectCompl, hstate]⟩
  have hyet : s.scheduledHellos = false := h.notYet
    (hstate.elim (fun h => .inr (.inr (.inl h))) fun h => .inr (.inr (.inr h)))
  have hclients : s.ctrlClients ≠ [] := h.ne_nil (by rcases hstate with hstate | hstate <;> simp [hstate])
  obtain ⟨t, ht, htclients, htstate⟩ := electionComplete_eq (s := { s with state := next }) hyet
  rw [SchedulesHellos, hstep, ht]
  constructor
  · cases hcs : s.ctrlClients with
    | nil => exact absurd hcs hclients
    | cons c cs =>
        by_cases hname : c.interfaceNamed = true
        · refine .inl ⟨0, ?_⟩
          simp [Exec.mem_outs_bind, scheduleFrom, hname]
        · exact .inr (by simp [scheduleFrom, hname])
  · intro s' hs'
    obtain ⟨-, -, hs'⟩ := Exec.result_bind_eq_some.mp hs'
    obtain rfl : t = s' := Option.some.inj hs'
    refine ⟨htclients ▸ h.named, fun _ => htclients ▸ hclients, ?_, ?_, ?_⟩ <;> rcases hnext with rfl | rfl <;>
      simp [htstate]

theorem Kept.step (h : Kept s) {e : ClientEvent} (hs' : (clientStep s e).result = some s') : Kept s' := by
  by_cases hcompl : e = .sibling .leadElectCompl ∧ (s.state = .leadElectStart ∨ s.state = .allIntUpLeadElectStart)
  · obtain ⟨rfl, hstate⟩ := hcompl
    exact (leadElectCompl_schedules h hstate).2 s' hs'
  · obtain ⟨-, t, ht, hkept⟩ := clientStep_quiet h hcompl
    obtain rfl : t = s' := Option.some.inj (ht.symm.trans hs')
    exact hkept

theorem hellosWait_iff (h : Kept s) (e : ClientEvent) : HellosWait s e ↔ CompletesInTurn s e := by
  constructor
  · rintro hwait ⟨rfl, hstate⟩
    obtain ⟨hup, -⟩ := hwait (leadElectCompl_schedules h (.inl hstate)).1
    rw [h.down (.inr hstate) (h.ne_nil (by simp [hstate]))] at hup
    exact Bool.false_ne_true hup
  · intro hturn hsched
    by_cases hcompl : e = .sibling .leadElectCompl ∧ (s.state = .leadElectStart ∨ s.state = .allIntUpLeadElectStart)
    · obtain ⟨rfl, hstate⟩ := hcompl
      have hup := h.up (.inr (hstate.resolve_left fun hstart => hturn ⟨rfl, hstart⟩))
      have hall := List.all_eq_true.mp (checkAllInterfaceUp_eq s ▸ hup)
      exact ⟨hup, fun c hc => h.named c hc (hall c hc)⟩
    · exact absurd hsched (clientStep_quiet h hcompl).not_schedules

end Steps

theorem kept_siblingCtrlInit (n : Nat) (r m : Bool) : Kept (siblingCtrlInit n r m) where
  named c hc hup := by
    rw [List.eq_of_mem_replicate hc] at hup
    cases hup
  ne_nil hne := absurd rfl hne
  down _ hne := by
    cases n with
    | zero => exact absurd rfl hne
    | succ n => rfl
  up h := by simp [siblingCtrlInit] at h
  notYet _ := rfl

/-- The Hellos of a run wait for all interfaces if and only if no election of it is completed in
`SC_LEAD_ELECT_START`. -/
theorem hellosWait_iff_completesInTurn (n : Nat) (r m : Bool) (es : List ClientEvent) :
    clientMachine.AllSteps HellosWait (siblingCtrlInit n r m) es ↔
      clientMachine.AllSteps CompletesInTurn (siblingCtrlInit n r m) es :=
  clientMachine.allSteps_iff_of_invariant (fun _ e h => hellosWait_iff h e) (fun _ _ _ h hs' => h.step hs')
    (kept_siblingCtrlInit n r m)

/-- One client whose interface is still down when the election is completed. -/
theorem electFirst_not_hellosWait : ¬ clientMachine.AllSteps HellosWait (siblingCtrlInit 1 false false)
    [.connect 0, .hello 0, .sibling (.leaderElect 0), .sibling .leadElectCompl] := by
  intro h
  have hrun : (clientMachine.run (siblingCtrlInit 1 false false)
      [.connect 0, .hello 0, .sibling (.leaderElect 0)]).result =
      some { siblingCtrlInit 1 false false with ctrlClients := [⟨.leadElectRcvd, false⟩], state := .leadElectStart } := by
    decide
  have hall : clientMachine.AllSteps HellosWait (siblingCtrlInit 1 false false)
      ([.connect 0, .hello 0, .sibling (.leaderElect 0)] ++ .sibling .leadElectCompl :: []) := h
  have hlast := (Machine.AllSteps.of_append clientMachine hall hrun).2
  have hup := (hlast (.inr (by decide))).1
  exact absurd hup (by decide)

end Harry.Startup
