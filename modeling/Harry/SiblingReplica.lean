import Harry.SiblingSend

/-! Two siblings side by side. They begin in the same state, their LSAs agreeing but for ages and stamps; they
take the same messages and fire the same timers, each by its own clock and with its own memory. The egress messages
are the same as long as no step depends on which of the two siblings runs it. A step does where it sends an initial
DbDesc, an LSAck or a retransmission, where an age or an arrival is on different sides of a limit by the two clocks,
and where an MTU check comes out one way for the place of the one buffer and another way for that of the other. -/

namespace Harry.Sibling

open Harry.Base Harry.Rfp Prog

variable {ρ : Type}

/-- A task that looks at nothing. The LSAs that are created in the step may show these ages. -/
def Concern.nothing (c c' : Nat → Timeval) : Concern where
  tests _ := False
  lists _ := False
  compares _ _ := False
  arrives _ := False
  seqnum := False
  moves _ _ := True
  shows g x := ∃ i j, i ≤ j ∧ x = shownAge g (c i) (c j)
  shows' g x := ∃ i j, i ≤ j ∧ x = shownAge g (c' i) (c' j)

/-- A DbDesc that opens an exchange tests every LSA; the headers of one that is accepted are compared. -/
def dbdescConcern (s : State ρ) (oi : Nat) (frame : List UInt8) (C : Concern) : Concern :=
  let state := (s.neighborAt ⟨oi, u32At frame 4⟩).state
  { C with
    tests := fun _ => s.routerId < u32At frame 4 ∧ (state = .init ∨ state = .exstart) ∧ negotiates frame = true
    lists := fun k => s.routerId < u32At frame 4 ∧ state = .exchange ∧
      ∃ off ∈ entriesInside frame 28 20, (lsaHeaderAt frame off).key = k
    compares := fun k g => s.routerId < u32At frame 4 ∧ state = .exchange ∧
      ∃ off ∈ entriesInside frame 28 20, (lsaHeaderAt frame off).key = k ∧ u16At frame off = g }

/-- The LSAs asked for go on a list. -/
def lsreqConcern (s : State ρ) (oi : Nat) (frame : List UInt8) (C : Concern) : Concern :=
  { C with
    lists := fun k => ((s.interfaceAt oi).neighborLookup (u32At frame 4)).isSome ∧
      k ∈ (entriesInside frame 16 12).map (lsreqKeyAt frame) }

/-- The LSAs of an update meet those of the same keys. -/
def lsupdateConcern (s : State ρ) (oi : Nat) (frame : List UInt8) (C : Concern) : Concern :=
  let accepts := ¬ (s.neighborAt ⟨oi, u32At frame 4⟩).state < .exchange
  { C with
    tests := fun k => accepts ∧ ∃ raw ∈ (lsupdateLsas frame).1, raw.header.key = k
    compares := fun k g => accepts ∧ ∃ raw ∈ (lsupdateLsas frame).1, raw.header.key = k ∧ raw.age = g
    arrives := fun k => accepts ∧ ∃ raw ∈ (lsupdateLsas frame).1, raw.header.key = k }

/-- An LSA of the sibling's own, of a type, meets those of its keys. -/
def originateConcern (s : State ρ) (type : UInt16) (C : Concern) : Concern :=
  { C with
    tests := fun k => k.type = type ∧ k.advRouter = s.routerId
    compares := fun k g => (k.type = type ∧ k.advRouter = s.routerId) ∧ g = 0 }

/-- What a task looks at, in the state it starts from. -/
def concern (s : State ρ) (C : Concern) : Task → Concern
  | .receive oi _ frame =>
    if u8At frame 1 = messageTypeDbdesc then dbdescConcern s oi frame C
    else if u8At frame 1 = messageTypeLsreq then lsreqConcern s oi frame C
    else if u8At frame 1 = messageTypeLsupdate then lsupdateConcern s oi frame C
    else C
  | .thread (.dbdescSend on) =>
    { C with
      seqnum := State.sendsInitial on s = true
      moves := fun d d' => State.sendsHeaders on s = true →
        SameHeaders (s.interfaceAt on.oi) (s.neighborAt on).dbdescList.length d d' }
  | .thread (.dbdescSendNewone on) =>
    { C with
      lists := fun _ => True
      seqnum := State.sendsInitial on s = true
      moves := fun d d' => State.sendsHeaders on s = true → SameHeaders (s.interfaceAt on.oi)
        (headerRoom (s.interfaceAt on.oi).ifmtu.toNat 32 (s.neighborAt on).summaryList.length) d d' }
  | .thread (.lsreqSend on) =>
    { C with
      moves := fun d d' => (s.neighborAt on).state = .exchange ∨ (s.neighborAt on).state = .loading →
        SameRequests (s.interfaceAt on.oi) (s.neighborAt on).requestList.length d d' }
  | .thread (.routerLsaOriginate _ _) => originateConcern s lstypeRouter C
  | .thread (.linkLsaOriginate _) => originateConcern s lstypeLink C
  | .thread (.intraPrefixLsaOriginateTransit _) =>
    { originateConcern s lstypeIntraPrefix C with
      tests := fun k => k.type = lstypeLink ∨ k.type = lstypeIntraPrefix ∧ k.advRouter = s.routerId }
  | .thread (.spfCalculation _ _) => { C with tests := fun k => k.type = lstypeIntraPrefix }
  | _ => C

/-- Nothing that a task sends or decides depends on which of two siblings runs it. An LSA is on a list once, and what is
on the list of the last DbDesc is there. -/
def Oblivious (s : State ρ) (m m' : Mem) : Task → Prop
  | .thread (.dbdescSendNewone on) => (∀ a ∈ (s.neighborAt on).dbdescList, (m.key a).isSome) ∧
    Agree (concern s (.nothing m.clock m'.clock) (.thread (.dbdescSendNewone on))) m m'
  | .thread (.lsupdateSendNeighbor on) => ¬ (s.neighborAt on).state < .exchange →
    let length := fun a => (m.lsa a).header.length.toNat
    ((s.neighborAt on).lsupdateList ++ (s.neighborAt on).retransList).Nodup ∧
      SameUpdate m.moves m'.moves length s on ∧ SameAges (lsupdateAges m.moves length s on) m m'
  | .thread (.lsackSendNeighbor on) => ¬ (s.neighborAt on).state < .exchange →
    let i := s.interfaceAt on.oi
    let as := (s.neighborAt on).lsackList
    as.Nodup ∧ SameAcks m.moves m'.moves i as ∧ SameAges (lsackAges m.moves i as) m m'
  | .thread (.lsackSendInterface oi) => InterfaceState.waiting.code < (s.interfaceAt oi).state.code →
    let i := s.interfaceAt oi
    i.lsackList.Nodup ∧ SameAcks m.moves m'.moves i i.lsackList ∧ SameAges (lsackAges m.moves i i.lsackList) m m'
  | task => Agree (concern s (.nothing m.clock m'.clock) task) m m'

section Step

variable [RouteCalc ρ] {C : Concern} {p : State ρ}

theorem twinAt_ospf6Receive (oi : Nat) (xid : UInt32) (frame : List UInt8) {Φ : Fact} [Persistent Φ] :
    TwinAt p (Rel (concern p C (.receive oi xid frame)) Φ) (ospf6Receive oi xid frame : M ρ Unit) fun _ => SameInfo := by
  suffices h : TwinAt p (Rel (concern p C (.receive oi xid frame)) Φ) (ospf6Receive oi xid frame : M ρ Unit)
      fun _ => Rel (concern p C (.receive oi xid frame)) Φ from h.mono (fun _ _ hR => hR) fun _ _ _ hR => hR.same
  refine twinAt_assert_bind fun b => .ite (fun _ => blind_helloRecv oi xid frame _) fun _ => ?_
  refine .ite (fun htype => ?_) fun hdbdesc => .ite (fun htype => ?_) fun hlsreq => .ite (fun htype => ?_) fun _ => ?_
  · have hC : concern p C (.receive oi xid frame) = dbdescConcern p oi frame C := if_pos htype
    rw [hC]
    refine twinAt_dbdescRecv oi xid frame (fun hlt hstate hneg k => ⟨hlt, hstate, hneg⟩) fun hlt hstate off hoff => ?_
    exact ⟨⟨hlt, hstate, off, hoff, rfl⟩, hlt, hstate, off, hoff, rfl, rfl⟩
  · have hC : concern p C (.receive oi xid frame) = lsreqConcern p oi frame C :=
      (if_neg hdbdesc).trans (if_pos htype)
    rw [hC]
    exact twinAt_lsreqRecv oi frame fun hsome k hk => ⟨hsome, hk⟩
  · have hC : concern p C (.receive oi xid frame) = lsupdateConcern p oi frame C :=
      (if_neg hdbdesc).trans ((if_neg hlsreq).trans (if_pos htype))
    rw [hC]
    refine twinAt_lsupdateRecv oi frame fun hacc raw hraw => ?_
    exact ⟨⟨hacc, raw, hraw, rfl⟩, ⟨hacc, raw, hraw, rfl, rfl⟩, hacc, raw, hraw, rfl⟩
  · exact Blind.pure _ _

omit [RouteCalc ρ] in
/-- A task run by two siblings that agree on what it looks at. -/
theorem twinAt_of_agree {task : Task} {m : M ρ Unit} (h : ∀ c c',
    TwinAt p (Rel (concern p (.nothing c c') task) fun _ _ => True) m fun _ => SameInfo) :
    TwinAt p (fun x y => SameInfo x y ∧ Agree (concern p (.nothing x.clock y.clock) task) x y) m fun _ => SameInfo := by
  refine .of_rel fun x y hxy => (h x.clock y.clock).mono (fun u v heq => ?_) fun _ _ _ hR => hR
  rw [heq.1, heq.2]
  exact ⟨hxy.1, hxy.2, trivial⟩

instance (P : Mem → Mem → Prop) : SeesInfo fun m m' => SameInfo m m' ∧ P m m' := ⟨And.left⟩

theorem twinAt_runThread (t : Thread) :
    TwinAt p (fun m m' => SameInfo m m' ∧ Oblivious p m m' (.thread t)) (runThread t : M ρ Unit) fun _ => SameInfo := by
  have hblind : ∀ {m : M ρ Unit} {P : Mem → Mem → Prop}, Blind SameInfo m →
      TwinAt p (fun m m' => SameInfo m m' ∧ P m m') m fun _ => SameInfo := fun h =>
    (h p).mono (fun _ _ hR => hR.1) fun _ _ _ hR => hR
  cases t with
  | helloSend oi => exact hblind (blind_helloSend oi)
  | dbdescSend on =>
      refine twinAt_of_agree fun c c' => twinAt_dbdescSend on (fun hinit m m' hR => ?_) fun hheads m m' hR => ?_
      · exact hR.agree.clocks.seqnum hinit 0 0
      · exact hR.agree.moves hheads
  | dbdescSendNewone on =>
      refine .of_rel fun x y hxy => (twinAt_dbdescSendNewone (C := concern p (.nothing x.clock y.clock)
        (.thread (.dbdescSendNewone on))) on (fun _ => trivial) (fun hinit => hinit) fun _ _ hmoves => hmoves).mono
        (fun u v heq => ?_) fun _ _ _ hR => hR
      rw [heq.1, heq.2]
      refine ⟨hxy.1, hxy.2.2, fun a ha => ?_⟩
      obtain ⟨k, hk⟩ := Option.isSome_iff_exists.mp (hxy.2.1 a ha)
      exact ⟨k, hk, trivial⟩
  | lsreqSend on =>
      exact twinAt_of_agree fun c c' => twinAt_lsreqSend on fun hstate m m' hR => hR.agree.moves hstate
  | lsupdateSendNeighbor on =>
      refine .of_rel fun x y hxy => ?_
      have : SeesInfo fun u v => u = x ∧ v = y := ⟨fun h => h.1 ▸ h.2 ▸ hxy.1⟩
      refine twinAt_lsupdateSendNeighbor on (fun h => (hxy.2 h).1) (fun h m m' heq => ?_) fun h m m' heq => ?_
      · rw [heq.1, heq.2]
        exact (hxy.2 h).2.1
      · rw [heq.1, heq.2]
        exact (hxy.2 h).2.2
  | lsupdateSendInterface oi => exact hblind (.pure _)
  | lsackSendNeighbor on =>
      refine .of_rel fun x y hxy => ?_
      have : SeesInfo fun u v => u = x ∧ v = y := ⟨fun h => h.1 ▸ h.2 ▸ hxy.1⟩
      refine twinAt_lsackSendNeighbor on (fun h => (hxy.2 h).1) (fun h m m' heq => ?_) fun h m m' heq => ?_
      · rw [heq.1, heq.2]
        exact (hxy.2 h).2.1
      · rw [heq.1, heq.2]
        exact (hxy.2 h).2.2
  | lsackSendInterface oi =>
      refine .of_rel fun x y hxy => ?_
      have : SeesInfo fun u v => u = x ∧ v = y := ⟨fun h => h.1 ▸ h.2 ▸ hxy.1⟩
      refine twinAt_lsackSendInterface oi (fun h => (hxy.2 h).1) (fun h m m' heq => ?_) fun h m m' heq => ?_
      · rw [heq.1, heq.2]
        exact (hxy.2 h).2.1
      · rw [heq.1, heq.2]
        exact (hxy.2 h).2.2
  | inactivityTimer on => exact hblind (blind_inactivityTimer on)
  | exchangeDone on => exact hblind (blind_exchangeDone on)
  | loadingDone on => exact hblind (blind_loadingDone on)
  | adjOk on => exact hblind (blind_adjOk on)
  | seqnumberMismatch on => exact hblind (blind_renegotiate on)
  | badLsreq on => exact hblind (blind_renegotiate on)
  | neighborChange oi => exact hblind (blind_neighborChange oi)
  | waitTimer oi => exact hblind (blind_waitTimer oi)
  | routerLsaOriginate oa hostnum =>
      refine twinAt_of_agree fun c c' => twinAt_routerLsaOriginate oa hostnum (fun id => ⟨rfl, rfl⟩) fun id => ?_
      exact ⟨⟨rfl, rfl⟩, rfl⟩
  | linkLsaOriginate oi =>
      exact twinAt_of_agree fun c c' => twinAt_linkLsaOriginate oi (fun id => ⟨rfl, rfl⟩) fun id => ⟨⟨rfl, rfl⟩, rfl⟩
  | intraPrefixLsaOriginateTransit oi =>
      refine twinAt_of_agree fun c c' => twinAt_intraPrefixLsaOriginateTransit oi (fun k hk => .inl hk)
        (fun id => .inr ⟨rfl, rfl⟩) fun id => ?_
      exact ⟨⟨rfl, rfl⟩, rfl⟩
  | spfCalculation oa hostnum =>
      refine twinAt_of_agree fun c c' => (blind_spfCalculation oa hostnum (fun k hk => hk) p).mono (fun _ _ hR => hR) ?_
      exact fun _ _ _ hR => hR.same
  | dangling => exact hblind blind_fail

theorem twinAt_runTask (task : Task) :
    TwinAt p (fun m m' => SameInfo m m' ∧ Oblivious p m m' task) (runTask task : M ρ Unit) fun _ => SameInfo := by
  cases task with
  | receive oi xid frame => exact twinAt_of_agree fun c c' => twinAt_ospf6Receive oi xid frame
  | thread t => exact twinAt_runThread t
  | idle => exact Twin.pure (fun _ _ hR => hR.1) p

/-- The heap of a sibling, with a clock and the moves of a buffer. -/
def Replica.mem (x : Replica ρ) (clock : Nat → Timeval) (moves : Nat → Int) : Mem := ⟨x.heap, clock, moves⟩

/-- Two siblings in the same protocol state. -/
structure SameState (x x' : Replica ρ) : Prop where
  state_eq : x'.state = x.state
  same : ∀ c c' d d', SameInfo (x.mem c d) (x'.mem c' d')

/-- One step of both: the event and what comes from outside are the same, the clocks and the places of the buffers are
not. -/
structure Turn where
  event : Event
  outside : Outside
  clock : Nat → Timeval
  clock' : Nat → Timeval
  moves : Nat → Int
  moves' : Nat → Int

def Turn.left (t : Turn) : Input := ⟨t.event, t.outside, t.clock, t.moves⟩

def Turn.right (t : Turn) : Input := ⟨t.event, t.outside, t.clock', t.moves'⟩

/-- Two siblings about to take a step from the same state: nothing in it depends on which of them takes it. -/
def StepOblivious (x x' : Replica ρ) (t : Turn) : Prop :=
  Oblivious (x.enter t.left).2 (x.mem t.clock t.moves) (x'.mem t.clock' t.moves') (x.enter t.left).1

theorem step_together {x x' : Replica ρ} (h : SameState x x') (t : Turn) (hfree : StepOblivious x x' t) :
    (sibling.step x' t.right).outs = (sibling.step x t.left).outs ∧
      Option.Rel SameState (sibling.step x t.left).result (sibling.step x' t.right).result := by
  have henter : x'.enter t.right = x.enter t.left := by
    unfold Replica.enter
    rw [h.state_eq]
    rfl
  have htwin := twinAt_runTask (x.enter t.left).1 (p := (x.enter t.left).2)
  have hmem : SameInfo (x.mem t.clock t.moves) (x'.mem t.clock' t.moves') ∧
      Oblivious (x.enter t.left).2 (x.mem t.clock t.moves) (x'.mem t.clock' t.moves') (x.enter t.left).1 :=
        ⟨h.same _ _ _ _, hfree⟩
  have hstate := htwin.state _ _ hmem
  have hrel := htwin.rel _ _ hmem
  show (Replica.leave (runTask (x'.enter t.right).1 (x'.enter t.right).2 (x'.mem t.clock' t.moves')).2.1 _).outs =
      (Replica.leave (runTask (x.enter t.left).1 (x.enter t.left).2 (x.mem t.clock t.moves)).2.1 _).outs ∧
    Option.Rel SameState (Replica.leave (runTask (x.enter t.left).1 (x.enter t.left).2 (x.mem t.clock t.moves)).2.1
      (runTask (x.enter t.left).1 (x.enter t.left).2 (x.mem t.clock t.moves)).2.2.heap).result
      (Replica.leave (runTask (x'.enter t.right).1 (x'.enter t.right).2 (x'.mem t.clock' t.moves')).2.1
        (runTask (x'.enter t.right).1 (x'.enter t.right).2 (x'.mem t.clock' t.moves')).2.2.heap).result
  rw [henter, hstate]
  refine ⟨rfl, ?_⟩
  unfold Replica.leave
  dsimp only
  split
  · exact .none
  · exact .some ⟨rfl, fun c c' d d' => ⟨hrel.length_eq, hrel.info_eq⟩⟩

/-- Two siblings that start in the same protocol state, take the same messages and fire the same timers send the
same bytes, in every run no step of which depends on their clocks or on where their buffers are; and they stay in the
same state. -/
theorem same_egress_of_oblivious {x x' : Replica ρ} (h : SameState x x') (ts : List Turn)
    (hfree : sibling.Together Turn.left Turn.right StepOblivious x x' ts) :
    (sibling.run x' (ts.map Turn.right)).outs = (sibling.run x (ts.map Turn.left)).outs ∧
      Option.Rel SameState (sibling.run x (ts.map Turn.left)).result (sibling.run x' (ts.map Turn.right)).result :=
  sibling.run_together Turn.left Turn.right h hfree fun _ _ t hsame hstep => step_together hsame t hstep

end Step

/-! ### A sibling without routes

It has one interface, on which it is the designated router, and is for runs in which no routing calculation takes
part. -/

section Runs

instance : RouteCalc Unit where
  intraPrefixLsaAdd _ _ _ _ := pure ()
  spfCalculation _ _ _ _ _ _ _ := pure ()
  transitPrefixes _ _ _ _ := some []

/-- A sibling with an interface. -/
def withInterface (i : Interface) : State Unit where
  routerId := 1
  areaList := [{ (default : Area) with enabled := true, options := [0, 0, 0x13], ifList := [0] }]
  interfaces := [{ i with
    ifindex := 1, mtu := 1500, ifmtu := 1500, helloInterval := 10, deadInterval := 40, drouter := 1, state := .dr }]
  ctrlClients := [⟨1, 10⟩]
  lsdb := []
  restartMode := false
  restartedFirstEgressNotSent := false
  externalCount := 0
  debugMsg := false
  events := []
  timers := []
  routes := ()
  outside := default
  sent := []
  fault := false

/-- A turn in which the clocks stand still, and buffers grow in place. -/
def Turn.still (e : Event) (t t' : Timeval) : Turn := ⟨e, default, fun _ => t, fun _ => t', fun _ => 0, fun _ => 0⟩

/-- A Hello of router 2 that lists router 1. -/
def twowayHello : List UInt8 :=
  ospf6Header messageTypeHello 40 2 0 ++ htonl 7 ++ [1, 0, 0, 0x13] ++ htons 10 ++ htons 40 ++ htonl 0 ++ htonl 0 ++
    htonl 1

end Runs

end Harry.Sibling
