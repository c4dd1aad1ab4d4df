import Mathlib.Data.List.Infix
import Mathlib.Data.List.Nodup
import Mathlib.Tactic.Push
import Harry.BaseExec

/-! The start of a sibling: the state machine of each controller client (`ctrl_client_state_transition`) and the one
of all of them together (`sibling_ctrl_update_state`). The interfaces come up and the controllers ask for a leader
election in any order; when the election is complete, a Hello is scheduled on the interface of every client. A client
knows the name of its interface from the time it comes up. -/

namespace Harry.Startup

open Harry.Base

/-- `enum ctrl_client_state`. -/
inductive CtrlClientState where
  | connecting | sentHello | rcvdHello | interfaceUp | leadElectRcvd | connected
  deriving DecidableEq, Repr

/-- `interface_name` is null until `ctrl_client_interface_init`; the name itself is that of the one interface the
client was created with. -/
structure CtrlClient where
  state : CtrlClientState
  interfaceNamed : Bool
  deriving DecidableEq, Repr

/-- The states of the sibling. -/
inductive ScState where
  | init | allIntUp | leadElectStart | leadElectCompl | allIntUpLeadElectStart | readyToSend
  | readyToSendLeadElectStart
  deriving DecidableEq, Repr

structure State where
  ctrlClients : List CtrlClient
  state : ScState
  scheduledHellos : Bool
  restartMode : Bool
  firstXidMutex : Bool
  restartedFirstEgressNotSent : Bool
  deriving DecidableEq, Repr

inductive Output where
  /-- `ospf6_leader_elect` is called. -/
  | leaderElect
  /-- `ospf6_hello_send` is scheduled for the interface of a client. -/
  | hello (client : Nat)
  deriving DecidableEq, Repr

inductive Event where
  /-- The interface of a client comes up. -/
  | interfaceUp (client : Nat)
  /-- A client gets a leader election message. -/
  | leaderElect (client : Nat)
  /-- `SCG_LEAD_ELECT_COMPL`. -/
  | leadElectCompl
  deriving DecidableEq, Repr

abbrev M := Exec Output

/-- `check_all_interface_up`. -/
def checkAllInterfaceUp (s : State) : Bool :=
  s.ctrlClients.all fun c => c.state == .interfaceUp || c.state == .connected

/-- `check_all_rcvd_lead_elect`. -/
def checkAllRcvdLeadElect (s : State) : Bool :=
  s.ctrlClients.all fun c => c.state == .leadElectRcvd || c.state == .connected

/-- The loop of `schedule_hellos_on_interfaces`, from a client on; it looks up the interface by its name. -/
def scheduleFrom : Nat → List CtrlClient → M Unit
  | _, [] => pure ()
  | i, c :: cs => do
      Exec.require (c.interfaceNamed = true)
      Exec.emit (.hello i)
      scheduleFrom (i + 1) cs

/-- `schedule_hellos_on_interfaces`. -/
def scheduleHellosOnInterfaces (s : State) : M State :=
  if s.scheduledHellos then pure s
  else do
    scheduleFrom 0 s.ctrlClients
    pure { s with scheduledHellos := true }

/-- What follows the end of an election that was the first one. -/
def electionComplete (s : State) : M State :=
  if s.restartMode then
    scheduleHellosOnInterfaces { s with firstXidMutex := false, restartedFirstEgressNotSent := true }
  else scheduleHellosOnInterfaces s

/-- `sibling_ctrl_update_state (SCG_CTRL_INT_UP_REQ)`. -/
def updateIntUp (s : State) : M State :=
  match s.state with
  | .init => pure (if checkAllInterfaceUp s then { s with state := .allIntUp } else s)
  | .leadElectStart => pure (if checkAllInterfaceUp s then { s with state := .allIntUpLeadElectStart } else s)
  | .leadElectCompl => pure (if checkAllInterfaceUp s then { s with state := .readyToSend } else s)
  | _ => pure s

/-- `sibling_ctrl_update_state (SCG_CTRL_LEAD_ELECT_RCVD_REQ)`. -/
def updateLeadElectRcvd (s : State) : M State :=
  match s.state with
  | .init =>
      if checkAllRcvdLeadElect s then do
        Exec.emit .leaderElect
        pure { s with state := .leadElectStart }
      else pure s
  | .allIntUp =>
      if checkAllRcvdLeadElect s then do
        Exec.emit .leaderElect
        pure { s with state := .allIntUpLeadElectStart }
      else pure s
  | .readyToSend =>
      if checkAllInterfaceUp s then do
        Exec.emit .leaderElect
        pure { s with state := .readyToSendLeadElectStart }
      else pure s
  | _ => pure s

/-- `sibling_ctrl_update_state (SCG_LEAD_ELECT_COMPL)`. -/
def updateLeadElectCompl (s : State) : M State :=
  match s.state with
  | .leadElectStart => electionComplete { s with state := .leadElectCompl }
  | .allIntUpLeadElectStart => electionComplete { s with state := .readyToSend }
  | .readyToSendLeadElectStart => pure { s with state := .readyToSend }
  | _ => pure s

/-- A client is changed. -/
def State.setClient (s : State) (i : Nat) (c : CtrlClient) : State := { s with ctrlClients := s.ctrlClients.set i c }

/-- `interface_up`: the client gets the name of its interface, and goes to `CTRL_INTERFACE_UP`. -/
def interfaceUp (s : State) (i : Nat) : M State :=
  match s.ctrlClients[i]? with
  | none => pure s
  | some c =>
      let c := { c with interfaceNamed := true }
      match c.state with
      | .rcvdHello => updateIntUp (s.setClient i { c with state := .interfaceUp })
      | .leadElectRcvd => updateIntUp (s.setClient i { c with state := .connected })
      | _ => pure (s.setClient i c)

/-- `ctrl_client_state_transition` to `CTRL_LEAD_ELECT_RCVD`. -/
def leadElectRcvd (s : State) (i : Nat) : M State :=
  match s.ctrlClients[i]? with
  | none => pure s
  | some c =>
      match c.state with
      | .rcvdHello => updateLeadElectRcvd (s.setClient i { c with state := .leadElectRcvd })
      | .interfaceUp => updateLeadElectRcvd (s.setClient i { c with state := .connected })
      | .connected => updateLeadElectRcvd s
      | _ => pure s

def step (s : State) : Event → M State
  | .interfaceUp i => interfaceUp s i
  | .leaderElect i => leadElectRcvd s i
  | .leadElectCompl => updateLeadElectCompl s

def machine : Machine State Event Output := ⟨step⟩

/-- A sibling with clients that have all said Hello. -/
def start (n : Nat) (restartMode firstXidMutex : Bool) : State where
  ctrlClients := List.replicate n ⟨.rcvdHello, false⟩
  state := .init
  scheduledHellos := false
  restartMode := restartMode
  firstXidMutex := firstXidMutex
  restartedFirstEgressNotSent := false

section History

variable (n : Nat) (es : List Event)

def AllUp : Prop := ∀ i < n, .interfaceUp i ∈ es

def AllElect : Prop := ∀ i < n, .leaderElect i ∈ es

instance : Decidable (AllUp n es) := inferInstanceAs (Decidable (∀ i < n, Event.interfaceUp i ∈ es))

instance : Decidable (AllElect n es) := inferInstanceAs (Decidable (∀ i < n, Event.leaderElect i ∈ es))

/-- The election has been completed after it has started. -/
def Completed : Prop := ∃ p q, es = p ++ .leadElectCompl :: q ∧ AllElect n p

/-- An interleaving of one interface that comes up and one request for an election for each client, with any number of
completions, one of them at least after the election has started. -/
structure Interleaving : Prop where
  interfaceUp_count : ∀ i, es.count (.interfaceUp i) = if i < n then 1 else 0
  leaderElect_count : ∀ i, es.count (.leaderElect i) = if i < n then 1 else 0
  completed : Completed n es

/-- No completion of the election comes while an interface is still down. -/
def InTurn : Prop := ∀ p q, es = p ++ .leadElectCompl :: q → AllElect n p → AllUp n p

/-- The sibling is ready: the election was called once, and a Hello is scheduled on each interface once. -/
def Ready (x : Exec Output State) : Prop :=
  ∃ t, x.result = some t ∧ t.state = .readyToSend ∧ t.ctrlClients.length = n ∧
    (∀ c ∈ t.ctrlClients, c.state = .connected) ∧ x.outs.count .leaderElect = 1 ∧
    ∀ i, x.outs.count (.hello i) = if i < n then 1 else 0

/-- A client by what it has had. -/
def clientAfter (i : Nat) : CtrlClient where
  state :=
    if .interfaceUp i ∈ es then if .leaderElect i ∈ es then .connected else .interfaceUp
    else if .leaderElect i ∈ es then .leadElectRcvd else .rcvdHello
  interfaceNamed := .interfaceUp i ∈ es

/-- The sibling before the election is complete. -/
def phase : ScState :=
  if AllUp n es then if AllElect n es then .allIntUpLeadElectStart else .allIntUp
  else if AllElect n es then .leadElectStart else .init

/-- The state and the outputs after the events. -/
structure After (os : List Output) (s : State) : Prop where
  clients_eq : s.ctrlClients = (List.range n).map (clientAfter es)
  elections : os.count .leaderElect = if AllElect n es then 1 else 0
  before : ¬ Completed n es → s.state = phase n es ∧ s.scheduledHellos = false ∧ ∀ i, .hello i ∉ os
  after : Completed n es → s.state = .readyToSend ∧ ∀ i, os.count (.hello i) = if i < n then 1 else 0

end History

variable {n : Nat} {es : List Event} {e : Event} {i : Nat}

theorem allUp_snoc_of_ne (h : ∀ i, e ≠ .interfaceUp i) : AllUp n (es ++ [e]) ↔ AllUp n es := by
  have hmem : ∀ i, .interfaceUp i ∈ es ++ [e] ↔ .interfaceUp i ∈ es := by
    intro i
    rw [List.mem_append, List.mem_singleton]
    exact or_iff_left (h i).symm
  unfold AllUp
  simp only [hmem]

theorem allElect_snoc_of_ne (h : ∀ i, e ≠ .leaderElect i) : AllElect n (es ++ [e]) ↔ AllElect n es := by
  have hmem : ∀ i, .leaderElect i ∈ es ++ [e] ↔ .leaderElect i ∈ es := by
    intro i
    rw [List.mem_append, List.mem_singleton]
    exact or_iff_left (h i).symm
  unfold AllElect
  simp only [hmem]

/-- A place for a completion in a list with one more event. -/
theorem snoc_eq_iff {p q : List Event} :
    es ++ [e] = p ++ .leadElectCompl :: q ↔
      (q = [] ∧ es = p ∧ e = .leadElectCompl) ∨ ∃ q', q = q' ++ [e] ∧ es = p ++ .leadElectCompl :: q' := by
  constructor
  · intro h
    rcases List.eq_nil_or_concat q with rfl | ⟨q', x, rfl⟩
    · obtain ⟨hp, he⟩ := List.append_inj' h rfl
      exact .inl ⟨rfl, hp, (List.cons.inj he).1⟩
    · rw [List.concat_eq_append, ← List.cons_append, ← List.append_assoc] at h
      obtain ⟨hp, he⟩ := List.append_inj' h rfl
      rw [List.concat_eq_append, (List.cons.inj he).1]
      exact .inr ⟨q', rfl, hp⟩
  · rintro (⟨rfl, rfl, rfl⟩ | ⟨q', rfl, rfl⟩)
    · rfl
    · rw [List.append_assoc, List.cons_append]

theorem completed_snoc : Completed n (es ++ [e]) ↔ Completed n es ∨ (e = .leadElectCompl ∧ AllElect n es) := by
  constructor
  · rintro ⟨p, q, heq, hp⟩
    rcases snoc_eq_iff.mp heq with ⟨-, rfl, he⟩ | ⟨q', -, heq⟩
    · exact .inr ⟨he, hp⟩
    · exact .inl ⟨p, q', heq, hp⟩
  · rintro (⟨p, q, heq, hp⟩ | ⟨he, hes⟩)
    · exact ⟨p, q ++ [e], snoc_eq_iff.mpr (.inr ⟨q, rfl, heq⟩), hp⟩
    · exact ⟨es, [], snoc_eq_iff.mpr (.inl ⟨rfl, rfl, he⟩), hes⟩

theorem inTurn_snoc : InTurn n (es ++ [e]) ↔ InTurn n es ∧ (e = .leadElectCompl → AllElect n es → AllUp n es) := by
  constructor
  · intro h
    refine ⟨fun p q heq => h p (q ++ [e]) (snoc_eq_iff.mpr (.inr ⟨q, rfl, heq⟩)), fun he => ?_⟩
    exact h es [] (snoc_eq_iff.mpr (.inl ⟨rfl, rfl, he⟩))
  · rintro ⟨hes, he⟩ p q heq
    rcases snoc_eq_iff.mp heq with ⟨-, rfl, hlast⟩ | ⟨q', -, heq⟩
    · exact he hlast
    · exact hes p q' heq

theorem Completed.allElect (h : Completed n es) : AllElect n es := by
  obtain ⟨p, q, rfl, hp⟩ := h
  exact fun i hi => List.mem_append_left _ (hp i hi)

theorem Completed.allUp (h : Completed n es) (hturn : InTurn n es) : AllUp n es := by
  obtain ⟨p, q, rfl, hp⟩ := h
  exact fun i hi => List.mem_append_left _ (hturn p q rfl hp i hi)

variable {os : List Output} {s : State}

theorem checkAllInterfaceUp_iff (h : s.ctrlClients = (List.range n).map (clientAfter es)) :
    checkAllInterfaceUp s = true ↔ AllUp n es := by
  unfold checkAllInterfaceUp AllUp
  rw [h, List.all_map, List.all_eq_true]
  refine forall_congr' fun i => ?_
  rw [List.mem_range]
  refine imp_congr_right fun _ => ?_
  by_cases hup : .interfaceUp i ∈ es <;> by_cases hel : .leaderElect i ∈ es <;> simp [clientAfter, hup, hel]

theorem checkAllRcvdLeadElect_iff (h : s.ctrlClients = (List.range n).map (clientAfter es)) :
    checkAllRcvdLeadElect s = true ↔ AllElect n es := by
  unfold checkAllRcvdLeadElect AllElect
  rw [h, List.all_map, List.all_eq_true]
  refine forall_congr' fun i => ?_
  rw [List.mem_range]
  refine imp_congr_right fun _ => ?_
  by_cases hup : .interfaceUp i ∈ es <;> by_cases hel : .leaderElect i ∈ es <;> simp [clientAfter, hup, hel]

/-- One client's event. -/
theorem clients_set (hi : ∀ j, j ≠ i → clientAfter (es ++ [e]) j = clientAfter es j) :
    ((List.range n).map (clientAfter es)).set i (clientAfter (es ++ [e]) i) =
      (List.range n).map (clientAfter (es ++ [e])) := by
  apply List.ext_getElem
  · simp
  · intro j hj hj'
    rw [List.getElem_set]
    split
    next hij => simp [hij]
    next hij =>
      simp only [List.getElem_map, List.getElem_range]
      exact (hi j (Ne.symm hij)).symm

theorem getElem?_clients (h : s.ctrlClients = (List.range n).map (clientAfter es)) (hi : i < n) :
    s.ctrlClients[i]? = some (clientAfter es i) := by
  rw [h, List.getElem?_map, List.getElem?_range hi]
  rfl

/-- Where all clients know their interfaces, each gets a Hello. -/
theorem scheduleFrom_named {cs : List CtrlClient} (h : ∀ c ∈ cs, c.interfaceNamed = true) (i : Nat) :
    scheduleFrom i cs = ⟨(List.range' i cs.length).map Output.hello, some ()⟩ := by
  induction cs generalizing i with
  | nil => rfl
  | cons c cs ih =>
      have hc : Exec.require (c.interfaceNamed = true) = (pure () : M Unit) := by
        rw [h c List.mem_cons_self]
        rfl
      rw [scheduleFrom, hc, pure_bind, ih (fun c' hc' => h c' (List.mem_cons_of_mem c hc')), Exec.bind_of_some _ rfl]
      rfl

/-- Where one does not, there is no going on. -/
theorem scheduleFrom_unnamed {cs : List CtrlClient} (h : ∃ c ∈ cs, c.interfaceNamed = false) (i : Nat) :
    (scheduleFrom i cs).result = none := by
  induction cs generalizing i with
  | nil =>
      obtain ⟨c, hc, -⟩ := h
      cases hc
  | cons c cs ih =>
      cases hname : c.interfaceNamed with
      | false => simp [scheduleFrom, hname]
      | true =>
          obtain ⟨c', hc', hfalse⟩ := h
          rcases List.mem_cons.mp hc' with rfl | hmem
          · rw [hname] at hfalse
            cases hfalse
          · simp [scheduleFrom, hname, ih ⟨c', hmem, hfalse⟩ (i + 1)]

theorem electionComplete_eq (h : s.scheduledHellos = false) : ∃ t : State,
    electionComplete s = (scheduleFrom 0 s.ctrlClients >>= fun _ => pure t) ∧ t.ctrlClients = s.ctrlClients ∧
      t.state = s.state := by
  unfold electionComplete scheduleHellosOnInterfaces
  split
  · exact ⟨_, if_neg (by simp [h]), rfl, rfl⟩
  · exact ⟨_, if_neg (by simp [h]), rfl, rfl⟩

/-! ### Steps -/

/-- The outcome of a step in turn. -/
def StepsTo (n : Nat) (es : List Event) (os : List Output) (x : Exec Output State) : Prop :=
  ∃ t, x.result = some t ∧ After n es (os ++ x.outs) t

theorem clientAfter_interfaceUp_self : clientAfter (es ++ [.interfaceUp i]) i =
    ⟨if .leaderElect i ∈ es then .connected else .interfaceUp, true⟩ := by
  simp [clientAfter]

theorem clientAfter_leaderElect_self : clientAfter (es ++ [.leaderElect i]) i =
    ⟨if .interfaceUp i ∈ es then .connected else .leadElectRcvd, .interfaceUp i ∈ es⟩ := by
  simp [clientAfter]

theorem clientAfter_interfaceUp_of_ne {j : Nat} (h : j ≠ i) :
    clientAfter (es ++ [.interfaceUp i]) j = clientAfter es j := by
  simp [clientAfter, h]

theorem clientAfter_leaderElect_of_ne {j : Nat} (h : j ≠ i) :
    clientAfter (es ++ [.leaderElect i]) j = clientAfter es j := by
  simp [clientAfter, h]

theorem clientAfter_leadElectCompl : clientAfter (es ++ [.leadElectCompl]) = clientAfter es := by
  funext j
  simp [clientAfter]

/-- The sibling takes note of an interface, where not all of them were up. -/
theorem updateIntUp_eq (hstate : s.state = phase n es) (hup : ¬ AllUp n es) :
    updateIntUp s = pure (if checkAllInterfaceUp s then
      { s with state := if AllElect n es then .allIntUpLeadElectStart else .allIntUp } else s) := by
  unfold updateIntUp
  rw [hstate, phase, if_neg hup]
  by_cases hel : AllElect n es
  · simp only [if_pos hel]
  · simp only [if_neg hel]

/-- The sibling takes note of a request for an election, where not all of them had come. -/
theorem updateLeadElectRcvd_eq (hstate : s.state = phase n es) (hel : ¬ AllElect n es) :
    updateLeadElectRcvd s = if checkAllRcvdLeadElect s then do
        Exec.emit .leaderElect
        pure { s with state := if AllUp n es then .allIntUpLeadElectStart else .leadElectStart }
      else pure s := by
  unfold updateLeadElectRcvd
  rw [hstate, phase, if_neg hel, if_neg hel]
  by_cases hup : AllUp n es
  · simp only [if_pos hup]
  · simp only [if_neg hup]

/-- An interface comes up. -/
theorem interfaceUp_after (h : After n es os s) (hturn : InTurn n es) (hi : i < n) (hnew : .interfaceUp i ∉ es) :
    StepsTo n (es ++ [.interfaceUp i]) os (interfaceUp s i) := by
  have hup : ¬ AllUp n es := fun hall => hnew (hall i hi)
  have hcompl : ¬ Completed n es := fun hc => hup (hc.allUp hturn)
  have hcompl' : ¬ Completed n (es ++ [.interfaceUp i]) := by
    rw [completed_snoc]
    rintro (hc | ⟨he, -⟩)
    · exact hcompl hc
    · cases he
  obtain ⟨hstate, hsched, hhello⟩ := h.before hcompl
  have hel : AllElect n (es ++ [.interfaceUp i]) ↔ AllElect n es := allElect_snoc_of_ne fun j => by simp
  -- the client is set to what it is after the event, and the sibling is updated
  have hstep : interfaceUp s i = updateIntUp (s.setClient i (clientAfter (es ++ [.interfaceUp i]) i)) := by
    unfold interfaceUp
    rw [getElem?_clients h.clients_eq hi, clientAfter_interfaceUp_self]
    by_cases hle : .leaderElect i ∈ es <;> simp [clientAfter, hnew, hle]
  have hclients : (s.setClient i (clientAfter (es ++ [.interfaceUp i]) i)).ctrlClients =
      (List.range n).map (clientAfter (es ++ [.interfaceUp i])) := by
    show s.ctrlClients.set i _ = _
    rw [h.clients_eq]
    exact clients_set fun j hj => clientAfter_interfaceUp_of_ne hj
  have hcheck := checkAllInterfaceUp_iff hclients
  have hstate' : (s.setClient i (clientAfter (es ++ [.interfaceUp i]) i)).state = phase n es := hstate
  rw [hstep, updateIntUp_eq hstate' hup]
  refine ⟨_, rfl, ?_, ?_, fun _ => ?_, fun hc => absurd hc hcompl'⟩
  · split <;> exact hclients
  · simp only [Exec.outs_pure, List.append_nil, h.elections, hel]
  · rw [Exec.outs_pure, List.append_nil]
    by_cases hup' : AllUp n (es ++ [.interfaceUp i])
    · rw [if_pos (hcheck.mpr hup')]
      exact ⟨by simp only [phase, if_pos hup', hel], hsched, hhello⟩
    · rw [if_neg fun hc => hup' (hcheck.mp hc)]
      refine ⟨hstate.trans ?_, hsched, hhello⟩
      simp only [phase, if_neg hup, if_neg hup', hel]

/-- A client is asked for an election. -/
theorem leadElectRcvd_after (h : After n es os s) (hi : i < n) (hnew : .leaderElect i ∉ es) :
    StepsTo n (es ++ [.leaderElect i]) os (leadElectRcvd s i) := by
  have hel : ¬ AllElect n es := fun hall => hnew (hall i hi)
  have hcompl : ¬ Completed n es := fun hc => hel hc.allElect
  have hcompl' : ¬ Completed n (es ++ [.leaderElect i]) := by
    rw [completed_snoc]
    rintro (hc | ⟨he, -⟩)
    · exact hcompl hc
    · cases he
  obtain ⟨hstate, hsched, hhello⟩ := h.before hcompl
  have hup : AllUp n (es ++ [.leaderElect i]) ↔ AllUp n es := allUp_snoc_of_ne fun j => by simp
  have hstep : leadElectRcvd s i = updateLeadElectRcvd (s.setClient i (clientAfter (es ++ [.leaderElect i]) i)) := by
    unfold leadElectRcvd
    rw [getElem?_clients h.clients_eq hi, clientAfter_leaderElect_self]
    by_cases hiu : .interfaceUp i ∈ es <;> simp [clientAfter, hnew, hiu]
  have hclients : (s.setClient i (clientAfter (es ++ [.leaderElect i]) i)).ctrlClients =
      (List.range n).map (clientAfter (es ++ [.leaderElect i])) := by
    show s.ctrlClients.set i _ = _
    rw [h.clients_eq]
    exact clients_set fun j hj => clientAfter_leaderElect_of_ne hj
  have hcheck := checkAllRcvdLeadElect_iff hclients
  have hstate' : (s.setClient i (clientAfter (es ++ [.leaderElect i]) i)).state = phase n es := hstate
  rw [hstep, updateLeadElectRcvd_eq hstate' hel]
  by_cases hel' : AllElect n (es ++ [.leaderElect i])
  · rw [if_pos (hcheck.mpr hel'), Exec.bind_of_some _ rfl]
    refine ⟨_, rfl, hclients, ?_, fun _ => ⟨?_, hsched, fun j => ?_⟩, fun hc => absurd hc hcompl'⟩
    · simp [h.elections, hel, hel']
    · simp only [phase, if_pos hel', hup]
    · simp [hhello j]
  · rw [if_neg fun hc => hel' (hcheck.mp hc)]
    refine ⟨_, rfl, hclients, ?_, fun _ => ⟨?_, hsched, fun j => ?_⟩, fun hc => absurd hc hcompl'⟩
    · simp [h.elections, hel, hel']
    · refine hstate.trans ?_
      simp only [phase, if_neg hel, if_neg hel', hup]
    · simp [hhello j]

/-- A completion that finds all interfaces up if the election has started. -/
theorem leadElectCompl_after (h : After n es os s) (hturn : AllElect n es → AllUp n es) :
    StepsTo n (es ++ [.leadElectCompl]) os (updateLeadElectCompl s) := by
  have hup : AllUp n (es ++ [.leadElectCompl]) ↔ AllUp n es := allUp_snoc_of_ne fun j => by simp
  have hel : AllElect n (es ++ [.leadElectCompl]) ↔ AllElect n es := allElect_snoc_of_ne fun j => by simp
  have hclients : s.ctrlClients = (List.range n).map (clientAfter (es ++ [.leadElectCompl])) := by
    rw [clientAfter_leadElectCompl]
    exact h.clients_eq
  by_cases hcompl : Completed n es
  · -- once more: nothing happens
    obtain ⟨hstate, hhello⟩ := h.after hcompl
    have hcompl' : Completed n (es ++ [.leadElectCompl]) := completed_snoc.mpr (.inl hcompl)
    have hstep : updateLeadElectCompl s = pure s := by
      unfold updateLeadElectCompl
      rw [hstate]
    rw [hstep]
    refine ⟨s, rfl, hclients, ?_, fun hc => absurd hcompl' hc, fun _ => ⟨hstate, fun j => ?_⟩⟩
    · simp only [Exec.outs_pure, List.append_nil, h.elections, hel]
    · rw [Exec.outs_pure, List.append_nil]
      exact hhello j
  · obtain ⟨hstate, hsched, hhello⟩ := h.before hcompl
    by_cases hall : AllElect n es
    · have hcompl' : Completed n (es ++ [.leadElectCompl]) := completed_snoc.mpr (.inr ⟨rfl, hall⟩)
      have hstep : updateLeadElectCompl s = electionComplete { s with state := .readyToSend } := by
        unfold updateLeadElectCompl
        rw [hstate, phase, if_pos (hturn hall), if_pos hall]
      obtain ⟨t, heq, ht, htstate⟩ := electionComplete_eq (s := { s with state := .readyToSend }) hsched
      have hnamed : ∀ c ∈ s.ctrlClients, c.interfaceNamed = true := by
        intro c hc
        rw [h.clients_eq, List.mem_map] at hc
        obtain ⟨j, hj, rfl⟩ := hc
        exact decide_eq_true (hturn hall j (List.mem_range.mp hj))
      have hlen : s.ctrlClients.length = n := by
        rw [h.clients_eq, List.length_map, List.length_range]
      have hrun : updateLeadElectCompl s = ⟨(List.range' 0 n).map Output.hello, some t⟩ := by
        rw [hstep, heq]
        show scheduleFrom 0 s.ctrlClients >>= _ = _
        rw [scheduleFrom_named hnamed, Exec.bind_of_some _ rfl, hlen, Exec.outs_pure, List.append_nil]
        rfl
      rw [hrun]
      refine ⟨t, rfl, ht.trans hclients, ?_, fun hc => absurd hcompl' hc, fun _ => ⟨htstate, fun j => ?_⟩⟩
      · have hnot : List.count Output.leaderElect ((List.range' 0 n).map Output.hello) = 0 :=
          List.count_eq_zero.mpr (by simp)
        simp only [List.count_append, h.elections, hel, hnot, Nat.add_zero]
      · have hinj : Function.Injective Output.hello := fun a b hab => by injection hab
        have hnodup : ((List.range' 0 n).map Output.hello).Nodup := List.Nodup.map hinj List.nodup_range'
        rw [List.count_append, List.count_eq_zero.mpr (hhello j), Nat.zero_add, hnodup.count]
        simp
    · have hcompl' : ¬ Completed n (es ++ [.leadElectCompl]) := by
        rw [completed_snoc]
        rintro (hc | ⟨-, hc⟩)
        · exact hcompl hc
        · exact hall hc
      have hstep : updateLeadElectCompl s = pure s := by
        unfold updateLeadElectCompl
        rw [hstate, phase, if_neg hall, if_neg hall]
        by_cases hup : AllUp n es
        · rw [if_pos hup]
        · rw [if_neg hup]
      rw [hstep]
      refine ⟨s, rfl, hclients, ?_, fun _ => ⟨hstate.trans ?_, hsched, fun j => ?_⟩, fun hc => absurd hc hcompl'⟩
      · simp only [Exec.outs_pure, List.append_nil, h.elections, hel]
      · simp only [phase, hup, hel]
      · rw [Exec.outs_pure, List.append_nil]
        exact hhello j

/-- A completion while an interface is down. -/
theorem leadElectCompl_result_none (h : After n es os s) (hturn : InTurn n es) (hel : AllElect n es)
    (hup : ¬ AllUp n es) : (updateLeadElectCompl s).result = none := by
  have hcompl : ¬ Completed n es := fun hc => hup (hc.allUp hturn)
  obtain ⟨hstate, hsched, -⟩ := h.before hcompl
  have hstep : updateLeadElectCompl s = electionComplete { s with state := .leadElectCompl } := by
    unfold updateLeadElectCompl
    rw [hstate, phase, if_neg hup, if_pos hel]
  obtain ⟨t, heq, -, -⟩ := electionComplete_eq (s := { s with state := .leadElectCompl }) hsched
  have hunnamed : ∃ c ∈ s.ctrlClients, c.interfaceNamed = false := by
    unfold AllUp at hup
    push Not at hup
    obtain ⟨j, hj, hnot⟩ := hup
    refine ⟨clientAfter es j, ?_, decide_eq_false hnot⟩
    rw [h.clients_eq]
    exact List.mem_map.mpr ⟨j, List.mem_range.mpr hj, rfl⟩
  rw [hstep, heq, Exec.result_bind, scheduleFrom_unnamed hunnamed]
  rfl

theorem after_start (hn : 0 < n) (r m : Bool) : After n [] [] (start n r m) where
  clients_eq := by
    apply List.ext_getElem
    · simp [start]
    · intro j hj hj'
      simp [start, clientAfter]
  elections := by
    rw [if_neg fun h : AllElect n [] => List.not_mem_nil (h 0 hn)]
    rfl
  before _ := by
    have hup : ¬ AllUp n [] := fun h => List.not_mem_nil (h 0 hn)
    have hel : ¬ AllElect n [] := fun h => List.not_mem_nil (h 0 hn)
    exact ⟨by simp [phase, hup, hel, start], rfl, fun i => List.not_mem_nil⟩
  after h := absurd h.allElect fun hel => List.not_mem_nil (hel 0 hn)

/-- An event of a client is the only one of its kind. -/
theorem not_mem_of_count {p q : List Event} (h : (p ++ e :: q).count e = if i < n then 1 else 0) :
    i < n ∧ e ∉ p := by
  rw [List.count_append, List.count_cons_self] at h
  by_cases hi : i < n
  · rw [if_pos hi] at h
    exact ⟨hi, List.count_eq_zero.mp (by omega)⟩
  · rw [if_neg hi] at h
    omega

/-- After any beginning of an interleaving: if it is in turn the sibling is where it should be, and else there is no
state any more. -/
theorem run_after (hes : Interleaving n es) (hn : 0 < n) (r m : Bool) (p q : List Event) (hpq : es = p ++ q) :
    (InTurn n p ∧ StepsTo n p [] (machine.run (start n r m) p)) ∨
      (¬ InTurn n p ∧ (machine.run (start n r m) p).result = none) := by
  induction p using List.reverseRecOn generalizing q with
  | nil =>
      refine .inl ⟨fun p q h => ?_, start n r m, rfl, after_start hn r m⟩
      exact absurd h (by simp)
  | append_singleton p e ih =>
      rw [List.append_assoc, List.singleton_append] at hpq
      rw [Machine.run_snoc, inTurn_snoc]
      rcases ih (e :: q) hpq with ⟨hturn, s, hs, hafter⟩ | ⟨hnot, hnone⟩
      · rw [List.nil_append] at hafter
        -- the outputs of the last step come after those of the run
        have hlast : ∀ {e}, StepsTo n (p ++ [e]) (machine.run (start n r m) p).outs (machine.step s e) →
            StepsTo n (p ++ [e]) [] (machine.run (start n r m) p >>= fun s' => machine.step s' e) := by
          rintro e ⟨t, ht, hafter'⟩
          rw [Exec.bind_of_some _ hs]
          exact ⟨t, ht, hafter'⟩
        cases e with
        | interfaceUp i =>
            obtain ⟨hi, hnew⟩ := not_mem_of_count (hpq ▸ hes.interfaceUp_count i)
            exact .inl ⟨⟨hturn, nofun⟩, hlast (interfaceUp_after hafter hturn hi hnew)⟩
        | leaderElect i =>
            obtain ⟨hi, hnew⟩ := not_mem_of_count (hpq ▸ hes.leaderElect_count i)
            exact .inl ⟨⟨hturn, nofun⟩, hlast (leadElectRcvd_after hafter hi hnew)⟩
        | leadElectCompl =>
            by_cases hup : AllElect n p → AllUp n p
            · exact .inl ⟨⟨hturn, fun _ => hup⟩, hlast (leadElectCompl_after hafter hup)⟩
            · refine .inr ⟨fun h => hup (h.2 rfl), ?_⟩
              have hel : AllElect n p := by
                by_contra hel
                exact hup fun h => absurd h hel
              rw [Exec.bind_of_some _ hs]
              exact leadElectCompl_result_none hafter hturn hel fun h => hup fun _ => h
      · refine .inr ⟨fun h => hnot h.1, ?_⟩
        rw [Exec.bind_of_none _ hnone]

/-- In any interleaving the sibling gets ready if and only if no completion of the election comes while an interface
is still down. -/
theorem ready_iff_inTurn (hes : Interleaving n es) (hn : 0 < n) (r m : Bool) :
    Ready n (machine.run (start n r m) es) ↔ InTurn n es := by
  rcases run_after hes hn r m es [] (List.append_nil es).symm with ⟨hturn, t, ht, hafter⟩ | ⟨hnot, hnone⟩
  · refine iff_of_true ?_ hturn
    rw [List.nil_append] at hafter
    have hel := hes.completed.allElect
    have hup := hes.completed.allUp hturn
    obtain ⟨hstate, hhello⟩ := hafter.after hes.completed
    refine ⟨t, ht, hstate, ?_, fun c hc => ?_, ?_, hhello⟩
    · rw [hafter.clients_eq, List.length_map, List.length_range]
    · rw [hafter.clients_eq, List.mem_map] at hc
      obtain ⟨i, hi, rfl⟩ := hc
      rw [List.mem_range] at hi
      simp [clientAfter, hup i hi, hel i hi]
    · rw [hafter.elections, if_pos hel]
  · refine iff_of_false (fun ⟨t, ht, _⟩ => ?_) hnot
    rw [hnone] at ht
    cases ht

/-- Two clients, all interfaces up before the last request for an election, and a completion too many. -/
def upFirst : List Event :=
  [.leadElectCompl, .interfaceUp 0, .leaderElect 0, .interfaceUp 1, .leaderElect 1, .leadElectCompl, .leadElectCompl]

theorem interleaving_upFirst : Interleaving 2 upFirst where
  interfaceUp_count i := by
    rcases i with - | - | i
    · decide
    · decide
    · exact List.count_eq_zero.mpr (by simp [upFirst])
  leaderElect_count i := by
    rcases i with - | - | i
    · decide
    · decide
    · exact List.count_eq_zero.mpr (by simp [upFirst])
  completed := ⟨upFirst.take 5, [.leadElectCompl], rfl, by decide⟩

/-- The places of the completions in a list. -/
theorem inTurn_of_inits (h : ∀ p ∈ es.inits, p ++ [.leadElectCompl] <+: es → AllElect n p → AllUp n p) :
    InTurn n es := by
  intro p q heq
  refine h p ((List.mem_inits p es).mpr ⟨_, heq.symm⟩) ⟨q, ?_⟩
  rw [List.append_assoc, List.singleton_append, heq]

theorem ready_upFirst : Interleaving 2 upFirst ∧ 0 < 2 ∧ InTurn 2 upFirst ∧
    Ready 2 (machine.run (start 2 false false) upFirst) := by
  have hturn : InTurn 2 upFirst := inTurn_of_inits (by decide)
  exact ⟨interleaving_upFirst, by decide, hturn,
    (ready_iff_inTurn interleaving_upFirst (by decide) false false).mpr hturn⟩

/-- One client: the election is over before the interface is up, and the name of the interface is missing. -/
theorem not_ready_electFirst :
    Interleaving 1 [.leaderElect 0, .leadElectCompl, .interfaceUp 0] ∧
      (machine.run (start 1 false false) [.leaderElect 0, .leadElectCompl, .interfaceUp 0]).result = none ∧
      ¬ Ready 1 (machine.run (start 1 false false) [.leaderElect 0, .leadElectCompl, .interfaceUp 0]) := by
  have hnone : (machine.run (start 1 false false) [.leaderElect 0, .leadElectCompl, .interfaceUp 0]).result = none := by
    decide
  refine ⟨⟨fun i => ?_, fun i => ?_, [.leaderElect 0], [.interfaceUp 0], rfl, by decide⟩, hnone, ?_⟩
  · rcases i with - | i
    · decide
    · exact List.count_eq_zero.mpr (by simp)
  · rcases i with - | i
    · decide
    · exact List.count_eq_zero.mpr (by simp)
  · rintro ⟨t, ht, -⟩
    rw [hnone] at ht
    cases ht

end Harry.Startup
