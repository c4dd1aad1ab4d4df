import Harry.VconnSend

/-! When a connection is faithful to what it reported as sent. A call of `vconn_connect` loses its Hello or none, and
then `rconn_send` loses its message if the handshake is not done or the write does not take it all: the return value
is dropped on the way. -/

namespace Harry.Sending

open Harry.Base Harry.Rfp
open Harry.Vconn (eagain eproto eof)

/-- Nothing is left over from before, and a connection that has failed knows its error. -/
structure Vconn.Ok (v : Vconn) : Prop where
  txbuf : v.txbuf = none
  error : v.state = .disconnected → v.error ≠ 0

/-- A call of `vconn_connect` comes to send the Hello. -/
def SendsHello (v : Vconn) (r : Replies) : Prop :=
  v.state = .sendHello ∨ v.state = .connecting ∧ r.connect = .done

/-- The Hello is not lost: it is written, or its write fails for good. -/
def HelloSafe (v : Vconn) (r : Replies) : Prop := SendsHello v r → r.hello.Whole 8 ∨ r.hello.Refused

/-- The peer's Hello is there, of a version that will do. -/
def Welcomed (v : Vconn) (r : Replies) : Prop :=
  ∃ b, r.received = .message b ∧ b.type = some .hello ∧ v.minVersion ≤ min 1 (b.data.getD 0 0).toNat

/-- The handshake is done, or will be in the next call of `vconn_connect`. -/
def Connects (v : Vconn) (r : Replies) : Prop :=
  match v.state with
  | .connecting => r.connect = .done ∧ r.hello.Whole 8 ∧ Welcomed v r
  | .sendHello => r.hello.Whole 8 ∧ Welcomed v r
  | .recvHello => Welcomed v r
  | .connected => True
  | .sendError | .disconnected => False

/-- The stream is not connected yet. -/
def Connect.Pending : Connect → Prop
  | .done => False
  | .again => True
  | .failed errno _ => (errno : Int) = eagain

/-- What a call of `vconn_connect` is worth. -/
structure Attempt (v : Vconn) (r : Replies) (call : Int × Vconn × List Output) : Prop where
  ok : call.2.1.Ok
  balanced : HelloSafe v r → Balanced call.2.2
  short : ¬ HelloSafe v r → Short call.2.2
  zero : HelloSafe v r → (call.1 = 0 ↔ Connects v r)
  sendHello : call.2.1.state ≠ .sendHello
  connecting : call.2.1.state = .connecting ↔ v.state = .connecting ∧ r.connect.Pending

theorem eagain_ne_zero : eagain ≠ 0 := by decide

theorem eproto_ne_zero : eproto ≠ 0 := by decide

section Handshake

variable {v : Vconn} {r : Replies}

theorem vconnConnect_stays (h : v.state ≠ .connected) (h' : v.state ≠ .disconnected)
    (hstays : (vcsPass r v).1.state = v.state) : vconnConnect r v = (eagain, (vcsPass r v).1, (vcsPass r v).2) := by
  rw [vconnConnect]
  cases hs : v.state <;> first | exact absurd hs h | exact absurd hs h' | exact dif_pos (hstays.trans hs)

theorem vconnConnect_moves (h : v.state ≠ .connected) (h' : v.state ≠ .disconnected)
    (hmoves : (vcsPass r v).1.state ≠ v.state) :
    vconnConnect r v = ((vconnConnect r (vcsPass r v).1).1, (vconnConnect r (vcsPass r v).1).2.1,
      (vcsPass r v).2 ++ (vconnConnect r (vcsPass r v).1).2.2) := by
  rw [vconnConnect]
  cases hs : v.state <;>
    first | exact absurd hs h | exact absurd hs h' | exact dif_neg fun heq => hmoves (heq.trans hs.symm)

theorem vconnConnect_connected (h : v.state = .connected) : vconnConnect r v = (0, v, []) := by
  rw [vconnConnect, h]

theorem vconnConnect_disconnected (h : v.state = .disconnected) : vconnConnect r v = (v.error, v, []) := by
  rw [vconnConnect, h]

theorem vconnConnect_sendError (h : v.state = .sendError) : vconnConnect r v = (eagain, v, []) := by
  have hpass : vcsPass r v = (v, []) := by
    rw [vcsPass, h]
  have hne : v.state ≠ .connected ∧ v.state ≠ .disconnected := by
    rw [h]
    exact ⟨VcsState.noConfusion, VcsState.noConfusion⟩
  rw [vconnConnect_stays hne.1 hne.2 (by rw [hpass]), hpass]

/-- Where no Hello is to be sent, none is lost. -/
theorem helloSafe_of_state (h : v.state ≠ .sendHello) (h' : v.state ≠ .connecting) : HelloSafe v r := by
  rintro (hs | ⟨hs, -⟩)
  · exact absurd hs h
  · exact absurd hs h'

/-- The call from `VCS_RECV_HELLO` on. -/
theorem vconnConnect_recvHello (hs : v.state = .recvHello) (hok : v.Ok) :
    ∃ retval v', vconnConnect r v = (retval, v', []) ∧ v'.Ok ∧ (retval = 0 ↔ Welcomed v r) ∧
      v'.state ≠ .sendHello ∧ v'.state ≠ .connecting := by
  have hpass : vcsPass r v = (vcsRecvHello v r.received, []) := by
    rw [vcsPass, hs]
  have hne : v.state ≠ .connected ∧ v.state ≠ .disconnected := by
    rw [hs]
    exact ⟨VcsState.noConfusion, VcsState.noConfusion⟩
  have hmoves {v' : Vconn} (hv' : vcsRecvHello v r.received = v') (hstate : v'.state ≠ .recvHello) :
      vconnConnect r v = vconnConnect r v' := by
    rw [vconnConnect_moves hne.1 hne.2 (by rw [hpass, hv', hs]; exact hstate), hpass, hv']
    rfl
  cases hr : r.received with
  | message b =>
      by_cases htype : b.type = some .hello
      · by_cases hversion : min 1 (b.data.getD 0 0).toNat < v.minVersion
        · have hv' : vcsRecvHello v r.received = { v with state := .sendError } := by
            rw [hr, vcsRecvHello, if_pos htype, if_pos hversion]
          rw [hmoves hv' VcsState.noConfusion, vconnConnect_sendError rfl]
          refine ⟨_, _, rfl, ⟨hok.txbuf, VcsState.noConfusion⟩, ⟨fun h => ?_, ?_⟩, VcsState.noConfusion,
            VcsState.noConfusion⟩
          · exact absurd h eagain_ne_zero
          · rintro ⟨b', hb', -, hle⟩
            rw [hr] at hb'
            cases hb'
            omega
        · have hv' : vcsRecvHello v r.received = { v with state := .connected } := by
            rw [hr, vcsRecvHello, if_pos htype, if_neg hversion]
          rw [hmoves hv' VcsState.noConfusion, vconnConnect_connected rfl]
          exact ⟨_, _, rfl, ⟨hok.txbuf, VcsState.noConfusion⟩,
            ⟨fun _ => ⟨b, hr, htype, Nat.le_of_not_lt hversion⟩, fun _ => rfl⟩, VcsState.noConfusion,
            VcsState.noConfusion⟩
      · have hv' : vcsRecvHello v r.received = { v with state := .disconnected, error := eproto } := by
          rw [hr, vcsRecvHello, if_neg htype]
        rw [hmoves hv' VcsState.noConfusion, vconnConnect_disconnected rfl]
        refine ⟨_, _, rfl, ⟨hok.txbuf, fun _ => eproto_ne_zero⟩, ⟨fun h => ?_, ?_⟩, VcsState.noConfusion,
          VcsState.noConfusion⟩
        · exact absurd h eproto_ne_zero
        · rintro ⟨b', hb', hhello, -⟩
          rw [hr] at hb'
          cases hb'
          exact absurd hhello htype
  | failed retval ne =>
      have hnot : ¬ Welcomed v r := by
        rintro ⟨b', hb', -⟩
        rw [hr] at hb'
        cases hb'
      by_cases hagain : retval = eagain
      · have hv' : vcsRecvHello v r.received = v := by
          rw [hr, vcsRecvHello, if_pos hagain]
        rw [vconnConnect_stays hne.1 hne.2 (by rw [hpass, hv']), hpass, hv']
        refine ⟨_, _, rfl, hok, ⟨fun h => absurd h eagain_ne_zero, fun h => absurd h hnot⟩, ?_, ?_⟩ <;>
          rw [hs] <;> exact VcsState.noConfusion
      · have hv' : vcsRecvHello v r.received =
            { v with state := .disconnected, error := if retval = eof then econnreset else retval } := by
          rw [hr, vcsRecvHello, if_neg hagain]
        have herror : (if retval = eof then econnreset else retval) ≠ 0 := by
          split
          · decide
          · exact ne
        rw [hmoves hv' VcsState.noConfusion, vconnConnect_disconnected rfl]
        exact ⟨_, _, rfl, ⟨hok.txbuf, fun _ => herror⟩, ⟨fun h => absurd h herror, fun h => absurd h hnot⟩,
          VcsState.noConfusion, VcsState.noConfusion⟩

/-- The call from `VCS_SEND_HELLO` on. -/
theorem vconnConnect_sendHello (hs : v.state = .sendHello) (hok : v.Ok) :
    ∃ retval v' os, vconnConnect r v = (retval, v', os) ∧ v'.Ok ∧
      (r.hello.Whole 8 ∨ r.hello.Refused → Balanced os ∧ (retval = 0 ↔ r.hello.Whole 8 ∧ Welcomed v r)) ∧
      (¬ (r.hello.Whole 8 ∨ r.hello.Refused) → Short os) ∧ v'.state ≠ .sendHello ∧ v'.state ≠ .connecting := by
  have hpass : vcsPass r v = vcsSendHello v r.xid r.hello := by
    rw [vcsPass, hs]
  have hne : v.state ≠ .connected ∧ v.state ≠ .disconnected := by
    rw [hs]
    exact ⟨VcsState.noConfusion, VcsState.noConfusion⟩
  have hmoves {v' : Vconn} {os : List Output} (hv' : vcsSendHello v r.xid r.hello = (v', os))
      (hstate : v'.state ≠ .sendHello) : vconnConnect r v =
        ((vconnConnect r v').1, (vconnConnect r v').2.1, os ++ (vconnConnect r v').2.2) := by
    rw [vconnConnect_moves hne.1 hne.2 (by rw [hpass, hv', hs]; exact hstate), hpass, hv']
  have hrecv : ∃ retval v', vconnConnect r { v with state := .recvHello } = (retval, v', []) ∧ v'.Ok ∧
      (retval = 0 ↔ Welcomed v r) ∧ v'.state ≠ .sendHello ∧ v'.state ≠ .connecting :=
    vconnConnect_recvHello rfl ⟨hok.txbuf, VcsState.noConfusion⟩
  obtain ⟨retval, v', hcall, hok', hzero, hnsend, hnconn⟩ := hrecv
  have hlen : (rfpmsgUpdateLength (helloOf r.xid)).data.length = 8 := size_rfpmsgUpdateLength _
  rcases doSend_cases hok.txbuf (helloOf r.xid) r.hello with
    ⟨hwhole, hsend⟩ | ⟨hpart, hlost, bytes, hbytes, hsend⟩ | ⟨hpart, hrefused, errno, hne0, hnagain, hsend⟩
  · have hv' : vcsSendHello v r.xid r.hello = ({ v with state := .recvHello }, [.wrote
        (rfpmsgUpdateLength (helloOf r.xid)).data] ++ [.returned (rfpmsgUpdateLength (helloOf r.xid)).data 0]) := by
      simp only [vcsSendHello, hsend, if_true]
    rw [hmoves hv' VcsState.noConfusion, hcall]
    refine ⟨_, _, _, rfl, hok', fun _ => ⟨?_, ?_⟩, fun hnot => absurd (Or.inl hwhole) hnot, hnsend, hnconn⟩
    · rw [List.append_nil]
      exact balanced_wrote _
    · exact hzero.trans ⟨fun h => ⟨hwhole, h⟩, fun h => h.2⟩
  · have hv' : vcsSendHello v r.xid r.hello = ({ v with state := .recvHello }, [.wrote bytes] ++
        [.returned (rfpmsgUpdateLength (helloOf r.xid)).data 0]) := by
      simp only [vcsSendHello, hsend, if_true]
    rw [hmoves hv' VcsState.noConfusion, hcall]
    refine ⟨_, _, _, rfl, hok', fun h => (h.elim hpart hlost).elim, fun _ => ?_, hnsend, hnconn⟩
    rw [List.append_nil]
    exact short_wrote (hlen ▸ hbytes)
  · have hv' : vcsSendHello v r.xid r.hello = ({ v with state := .disconnected, error := errno }, [.wrote []] ++
        [.returned (rfpmsgUpdateLength (helloOf r.xid)).data errno]) := by
      simp only [vcsSendHello, hsend, if_neg hne0, ne_eq, hnagain, not_false_eq_true, if_true]
    rw [hmoves hv' VcsState.noConfusion, vconnConnect_disconnected rfl]
    refine ⟨_, _, _, rfl, ⟨hok.txbuf, fun _ => hne0⟩, fun _ => ⟨?_, ?_⟩, fun hnot => absurd (Or.inr hrefused) hnot,
      VcsState.noConfusion, VcsState.noConfusion⟩
    · rw [List.append_nil]
      exact balanced_refused _ hne0
    · exact ⟨fun h => absurd h hne0, fun h => absurd h.1 hpart⟩

/-- Whatever the system calls come to, a call of `vconn_connect` is one of these. -/
theorem attempt_vconnConnect (hok : v.Ok) (r : Replies) : Attempt v r (vconnConnect r v) := by
  cases hs : v.state with
  | connected =>
      have hsafe : HelloSafe v r := helloSafe_of_state (by rw [hs]; exact VcsState.noConfusion)
        (by rw [hs]; exact VcsState.noConfusion)
      rw [vconnConnect_connected hs]
      refine ⟨hok, fun _ => balanced_nil, fun h => absurd hsafe h, fun _ => ⟨fun _ => ?_, fun _ => rfl⟩, ?_, ?_⟩
      · simp only [Connects, hs]
      · rw [hs]
        exact VcsState.noConfusion
      · simp only [hs, reduceCtorEq, false_and]
  | sendError =>
      have hsafe : HelloSafe v r := helloSafe_of_state (by rw [hs]; exact VcsState.noConfusion)
        (by rw [hs]; exact VcsState.noConfusion)
      rw [vconnConnect_sendError hs]
      refine ⟨hok, fun _ => balanced_nil, fun h => absurd hsafe h, fun _ => ⟨fun h => absurd h eagain_ne_zero, ?_⟩, ?_, ?_⟩
      · simp only [Connects, hs, false_implies]
      · rw [hs]
        exact VcsState.noConfusion
      · simp only [hs, reduceCtorEq, false_and]
  | disconnected =>
      have hsafe : HelloSafe v r := helloSafe_of_state (by rw [hs]; exact VcsState.noConfusion)
        (by rw [hs]; exact VcsState.noConfusion)
      rw [vconnConnect_disconnected hs]
      refine ⟨hok, fun _ => balanced_nil, fun h => absurd hsafe h, fun _ => ⟨fun h => absurd h (hok.error hs), ?_⟩, ?_, ?_⟩
      · simp only [Connects, hs, false_implies]
      · rw [hs]
        exact VcsState.noConfusion
      · simp only [hs, reduceCtorEq, false_and]
  | recvHello =>
      have hsafe : HelloSafe v r := helloSafe_of_state (by rw [hs]; exact VcsState.noConfusion)
        (by rw [hs]; exact VcsState.noConfusion)
      obtain ⟨retval, v', hcall, hok', hzero, hnsend, hnconn⟩ := vconnConnect_recvHello hs hok
      rw [hcall]
      refine ⟨hok', fun _ => balanced_nil, fun h => absurd hsafe h, fun _ => ?_, hnsend, ?_⟩
      · simp only [Connects, hs]
        exact hzero
      · simp only [hs, reduceCtorEq, false_and, iff_false]
        exact hnconn
  | sendHello =>
      have hiff : HelloSafe v r ↔ r.hello.Whole 8 ∨ r.hello.Refused :=
        ⟨fun h => h (Or.inl hs), fun h _ => h⟩
      obtain ⟨retval, v', os, hcall, hok', hsafe, hshort, hnsend, hnconn⟩ := vconnConnect_sendHello hs hok
      rw [hcall]
      refine ⟨hok', fun h => (hsafe (hiff.mp h)).1, fun h => hshort fun h' => h (hiff.mpr h'), fun h => ?_, hnsend, ?_⟩
      · simp only [Connects, hs]
        exact (hsafe (hiff.mp h)).2
      · simp only [hs, reduceCtorEq, false_and, iff_false]
        exact hnconn
  | connecting =>
      have hpass : vcsPass r v = (vcsConnecting v r.connect, []) := by
        rw [vcsPass, hs]
      have hne : v.state ≠ .connected ∧ v.state ≠ .disconnected := by
        rw [hs]
        exact ⟨VcsState.noConfusion, VcsState.noConfusion⟩
      have hnotdone (h : r.connect ≠ .done) : HelloSafe v r ∧ ¬ Connects v r := by
        refine ⟨?_, fun hc => ?_⟩
        · rintro (hsend | ⟨-, hdone⟩)
          · rw [hs] at hsend
            cases hsend
          · exact absurd hdone h
        · simp only [Connects, hs] at hc
          exact h hc.1
      have hpending (hstays : vcsConnecting v r.connect = v) (hp : r.connect.Pending) (hnot : r.connect ≠ .done) :
          Attempt v r (vconnConnect r v) := by
        rw [vconnConnect_stays hne.1 hne.2 (by rw [hpass, hstays]), hpass, hstays]
        refine ⟨hok, fun _ => balanced_nil, fun h => absurd (hnotdone hnot).1 h, fun _ =>
          ⟨fun h => absurd h eagain_ne_zero, fun h => absurd h (hnotdone hnot).2⟩, ?_, fun _ => ⟨hs, hp⟩, fun _ => hs⟩
        rw [hs]
        exact VcsState.noConfusion
      cases hc : r.connect with
      | done =>
          have hiff : HelloSafe v r ↔ r.hello.Whole 8 ∨ r.hello.Refused :=
            ⟨fun h => h (Or.inr ⟨hs, hc⟩), fun h _ => h⟩
          have hnext : ∃ retval v' os, vconnConnect r { v with state := .sendHello } = (retval, v', os) ∧ v'.Ok ∧
              (r.hello.Whole 8 ∨ r.hello.Refused → Balanced os ∧ (retval = 0 ↔ r.hello.Whole 8 ∧ Welcomed v r)) ∧
              (¬ (r.hello.Whole 8 ∨ r.hello.Refused) → Short os) ∧ v'.state ≠ .sendHello ∧ v'.state ≠ .connecting :=
            vconnConnect_sendHello rfl ⟨hok.txbuf, VcsState.noConfusion⟩
          obtain ⟨retval, v', os, hcall, hok', hsafe, hshort, hnsend, hnconn⟩ := hnext
          have hv' : vcsConnecting v r.connect = { v with state := .sendHello } := by
            rw [hc, vcsConnecting]
          have hmoves : (vcsPass r v).1.state ≠ v.state := by
            rw [hpass, hv', hs]
            exact VcsState.noConfusion
          rw [vconnConnect_moves hne.1 hne.2 hmoves, hpass, hv', hcall]
          refine ⟨hok', fun h => (hsafe (hiff.mp h)).1, fun h => hshort fun h' => h (hiff.mpr h'), fun h => ?_, hnsend,
            ⟨fun h => absurd h hnconn, fun h => ?_⟩⟩
          · simp only [Connects, hs, hc, true_and]
            exact (hsafe (hiff.mp h)).2
          · rw [hc] at h
            exact h.2.elim
      | again => exact hpending (by rw [hc, vcsConnecting]) (by rw [hc]; trivial) (by rw [hc]; exact Connect.noConfusion)
      | failed errno pos =>
          have hnot : r.connect ≠ .done := by
            rw [hc]
            exact Connect.noConfusion
          by_cases he : (errno : Int) = eagain
          · exact hpending (by rw [hc, vcsConnecting, if_pos he]) (by rw [hc]; exact he) hnot
          · have hv' : vcsConnecting v r.connect = { v with state := .disconnected, error := errno } := by
              rw [hc, vcsConnecting, if_neg he]
            have hmoves : (vcsPass r v).1.state ≠ v.state := by
              rw [hpass, hv', hs]
              exact VcsState.noConfusion
            have herrno : (errno : Int) ≠ 0 := by omega
            rw [vconnConnect_moves hne.1 hne.2 hmoves, hpass, hv', vconnConnect_disconnected rfl]
            refine ⟨⟨hok.txbuf, fun _ => herrno⟩, fun _ => balanced_nil, fun h => absurd (hnotdone hnot).1 h,
              fun _ => ⟨fun h => absurd h herrno, fun h => absurd h (hnotdone hnot).2⟩, VcsState.noConfusion,
              ⟨fun h => VcsState.noConfusion h, fun h => ?_⟩⟩
            rw [hc] at h
            exact absurd h.2 he

end Handshake

theorem Attempt.le {v : Vconn} {r : Replies} {call : Int × Vconn × List Output} (h : Attempt v r call) :
    (written call.2.2).length ≤ (reported call.2.2).flatten.length := by
  by_cases hsafe : HelloSafe v r
  · exact (h.balanced hsafe).le
  · exact Nat.le_of_lt (h.short hsafe)

/-! ### A call on the rconn -/

/-- An rconn that is not void has a vconn. -/
structure Rconn.Ok (rc : Rconn) : Prop where
  vconn : rc.state ≠ .void → ∃ v, rc.vconn = some v
  each : ∀ v ∈ rc.vconn, v.Ok

/-- What is kept for later. -/
def kept (rc : Rconn) : List UInt8 := (rc.vconn.bind (·.txbuf)).getD []

/-- The calls that lose nothing: the handshake is done when there is a message to send, and each write takes all
that it is given. -/
def Event.Safe (rc : Rconn) : Event → Prop
  | .send msg r w => rc.isConnected = true → ∀ v ∈ rc.vconn, Connects v r ∧ w.Whole msg.size
  | .recv r _ => rc.isConnected = true → ∀ v ∈ rc.vconn, HelloSafe v r
  | .run r r' => ∀ v ∈ rc.vconn, HelloSafe v r ∧
      (rc.state = .connecting → v.state = .connecting ∧ r.connect.Pending → r'.connect = .done →
        r'.hello.Whole 8 ∨ r'.hello.Refused)

/-- What one call does, depending on whether it is safe. -/
structure Call (safe : Prop) (x : Exec Output Rconn) (rc : Rconn) : Prop where
  result : x.result = some rc
  ok : rc.Ok
  balanced : safe → Balanced x.outs
  short : ¬ safe → Short x.outs

section Rconn

variable {rc : Rconn} {v : Vconn}

theorem Connects.helloSafe {r : Replies} (h : Connects v r) : HelloSafe v r := by
  rintro (hs | ⟨hs, -⟩) <;> simp only [Connects, hs] at h
  · exact Or.inl h.1
  · exact Or.inl h.2.1

theorem ok_settled (hv : v.Ok) (rc : Rconn) (retval : Int) (state : RconnState) :
    (Rconn.settled { rc with vconn := some v } retval state).Ok := by
  have hsome : ∀ s : RconnState, (⟨s, some v⟩ : Rconn).Ok := fun s =>
    ⟨fun _ => ⟨v, rfl⟩, fun v' hv' => Option.some.inj hv' ▸ hv⟩
  unfold Rconn.settled rconnDisconnect
  split
  · exact hsome state
  · split
    · split
      · exact ⟨fun h => absurd rfl h, fun v' hv' => by cases hv'⟩
      · exact hsome rc.state
    · exact hsome rc.state

theorem Rconn.Ok.exists_vconn (hok : rc.Ok) (h : rc.isConnected = true) : ∃ v, rc.vconn = some v ∧ v.Ok := by
  have hne : rc.state ≠ .void := by
    intro hvoid
    rw [isConnected, hvoid] at h
    exact absurd h (by decide)
  obtain ⟨v, hv⟩ := hok.vconn hne
  exact ⟨v, hv, hok.each v hv⟩

theorem Rconn.Ok.kept_eq (hok : rc.Ok) : kept rc = [] := by
  unfold kept
  cases hv : rc.vconn with
  | none => rfl
  | some v => simp only [Option.bind_some, (hok.each v hv).txbuf, Option.getD_none]

theorem emits_then {α : Type} (os : List Output) (a : α) :
    (Exec.emits os >>= fun _ => (pure a : Exec Output α)) = ⟨os, some a⟩ := by
  rw [Exec.bind_of_some _ (Exec.result_emits os), Exec.outs_emits, Exec.outs_pure, List.append_nil, Exec.result_pure]

theorem size_pos (msg : Rfpbuf) : 0 < (rfpmsgUpdateLength msg).data.length := by
  rw [size_rfpmsgUpdateLength]
  exact Nat.lt_of_lt_of_le (by decide) msg.header_le

/-- A message passed to `vconn_send`, and what its caller is told in the end. -/
theorem vconnSend_spec (hok : v.Ok) (msg : Rfpbuf) (r : Replies) (w : Write) :
    (vconnSend v msg r w).2.1.Ok ∧
      (Connects v r ∧ w.Whole msg.size →
        Balanced ((vconnSend v msg r w).2.2 ++ [.returned (rfpmsgUpdateLength msg).data 0])) ∧
      (¬ (Connects v r ∧ w.Whole msg.size) →
        Short ((vconnSend v msg r w).2.2 ++ [.returned (rfpmsgUpdateLength msg).data 0])) := by
  have hconnect : Attempt v r (vconnConnect r v) := attempt_vconnConnect hok r
  obtain ⟨⟨retval, v', os⟩, hcall⟩ : ∃ call, vconnConnect r v = call := ⟨_, rfl⟩
  rw [hcall] at hconnect
  have hsize : (rfpmsgUpdateLength msg).data.length = msg.size := size_rfpmsgUpdateLength msg
  by_cases hzero : retval = 0
  · obtain ⟨sent, hsend⟩ : ∃ sent, doSend v' msg w = sent := ⟨_, rfl⟩
    have heq : vconnSend v msg r w = (sent.1, v', os ++ sent.2) := by
      simp only [vconnSend, hcall, hzero, if_true, hsend]
    have hlater (bytes : List UInt8) (hbytes : bytes.length < msg.size) :
        Short (os ++ [.wrote bytes] ++ [.returned (rfpmsgUpdateLength msg).data 0]) := by
      rw [List.append_assoc]
      have hshort : Short ([.wrote bytes] ++ [.returned (rfpmsgUpdateLength msg).data 0]) :=
        short_wrote (hsize ▸ hbytes)
      by_cases hsafe : HelloSafe v r
      · exact (hconnect.balanced hsafe).append_short hshort
      · exact (hconnect.short hsafe).append_le (Nat.le_of_lt hshort)
    rw [heq]
    refine ⟨hconnect.ok, fun hsafe => ?_, fun hnot => ?_⟩
    · have hhello : HelloSafe v r := hsafe.1.helloSafe
      rcases doSend_cases hconnect.ok.txbuf msg w with ⟨-, h⟩ | ⟨hpart, -⟩ | ⟨hpart, -⟩
      · rw [hsend] at h
        rw [h, List.append_assoc]
        exact (hconnect.balanced hhello).append (balanced_wrote _)
      · exact absurd hsafe.2 hpart
      · exact absurd hsafe.2 hpart
    · rcases doSend_cases hconnect.ok.txbuf msg w with ⟨hwhole, h⟩ | ⟨-, -, bytes, hbytes, h⟩ | ⟨-, -, errno, -, -, h⟩
      · rw [hsend] at h
        have hsafe : ¬ HelloSafe v r := fun hsafe => hnot ⟨(hconnect.zero hsafe).mp hzero, hwhole⟩
        rw [h, List.append_assoc]
        exact (hconnect.short hsafe).append_le (balanced_wrote _).le
      · rw [hsend] at h
        rw [h]
        exact hlater bytes hbytes
      · rw [hsend] at h
        rw [h]
        exact hlater [] (Nat.lt_of_lt_of_le (by decide) msg.header_le)
  · have heq : vconnSend v msg r w = (retval, v', os) := by
      simp only [vconnSend, hcall, if_neg hzero]
    rw [heq]
    have hshort : Short [.returned (rfpmsgUpdateLength msg).data 0] := short_returned (size_pos msg)
    refine ⟨hconnect.ok, fun hsafe => ?_, fun _ => ?_⟩
    · exact absurd ((hconnect.zero hsafe.1.helloSafe).mpr hsafe.1) hzero
    · by_cases hsafe : HelloSafe v r
      · exact (hconnect.balanced hsafe).append_short hshort
      · exact (hconnect.short hsafe).append_le (Nat.le_of_lt hshort)

theorem rconnSend_call (hok : rc.Ok) (msg : Rfpbuf) (r : Replies) (w : Write) :
    ∃ rc', Call (Event.Safe rc (.send msg r w)) (rconnSend rc msg r w) rc' := by
  cases hconn : rc.isConnected with
  | false =>
      have heq : rconnSend rc msg r w = ⟨[.returned (rfpmsgUpdateLength msg).data enotconn], some rc⟩ := by
        rw [rconnSend, hconn]
        rfl
      have hsafe : Event.Safe rc (.send msg r w) := fun h => by
        rw [hconn] at h
        cases h
      rw [heq]
      exact ⟨rc, rfl, hok, fun _ => rfl, fun h => absurd hsafe h⟩
  | true =>
      obtain ⟨v, hv, hvok⟩ := hok.exists_vconn hconn
      obtain ⟨hok', hbalanced, hshort⟩ := vconnSend_spec hvok msg r w
      have htry : trySend rc msg r w = ⟨(vconnSend v msg r w).2.2,
          some (Rconn.settled { rc with vconn := some (vconnSend v msg r w).2.1 } (vconnSend v msg r w).1 rc.state)⟩ := by
        rw [trySend, hv, Exec.deref_some_bind]
        exact emits_then _ _
      have heq : rconnSend rc msg r w =
          ⟨(vconnSend v msg r w).2.2 ++ [.returned (rfpmsgUpdateLength msg).data 0],
            some (Rconn.settled { rc with vconn := some (vconnSend v msg r w).2.1 }
              (vconnSend v msg r w).1 rc.state)⟩ := by
        rw [rconnSend, hconn, if_pos rfl, Exec.bind_of_some _ (congrArg Exec.result htry), htry]
        rfl
      have hiff : Event.Safe rc (.send msg r w) ↔ Connects v r ∧ w.Whole msg.size :=
        ⟨fun h => h hconn v hv, fun h _ v' hv' => Option.some.inj (hv.symm.trans hv') ▸ h⟩
      rw [heq]
      exact ⟨_, rfl, ok_settled hok' _ _ _, fun h => hbalanced (hiff.mp h), fun h => hshort fun h' => h (hiff.mpr h')⟩

/-- `vconn_recv` adds nothing to what `vconn_connect` sends. -/
theorem vconnRecv_attempt (v : Vconn) (r : Replies) (reply : Received) :
    (vconnRecv v r reply).2 = (vconnConnect r v).2 := by
  obtain ⟨⟨retval, v', os⟩, hcall⟩ : ∃ call, vconnConnect r v = call := ⟨_, rfl⟩
  simp only [vconnRecv, hcall]
  split
  · cases reply <;> rfl
  · rfl

theorem rconnRecv_call (hok : rc.Ok) (r : Replies) (reply : Received) :
    ∃ rc', Call (Event.Safe rc (.recv r reply)) (rconnRecv rc r reply) rc' := by
  cases hconn : rc.isConnected with
  | false =>
      have heq : rconnRecv rc r reply = ⟨[], some rc⟩ := by
        rw [rconnRecv, hconn]
        rfl
      have hsafe : Event.Safe rc (.recv r reply) := fun h => by
        rw [hconn] at h
        cases h
      rw [heq]
      exact ⟨rc, rfl, hok, fun _ => rfl, fun h => absurd hsafe h⟩
  | true =>
      obtain ⟨v, hv, hvok⟩ := hok.exists_vconn hconn
      have hconnect : Attempt v r (vconnConnect r v) := attempt_vconnConnect hvok r
      have heq : rconnRecv rc r reply = ⟨(vconnConnect r v).2.2,
          some (Rconn.settled { rc with vconn := some (vconnConnect r v).2.1 } (vconnRecv v r reply).1 .active)⟩ := by
        rw [rconnRecv, hconn, if_pos rfl, hv, Exec.deref_some_bind, ← vconnRecv_attempt v r reply]
        exact emits_then _ _
      have hiff : Event.Safe rc (.recv r reply) ↔ HelloSafe v r :=
        ⟨fun h => h hconn v hv, fun h _ v' hv' => Option.some.inj (hv.symm.trans hv') ▸ h⟩
      rw [heq]
      exact ⟨_, rfl, ok_settled hconnect.ok _ _ _, fun h => hconnect.balanced (hiff.mp h),
        fun h => hconnect.short fun h' => h (hiff.mpr h')⟩

/-- `vconn_run` is one call of `vconn_connect`, or nothing. -/
theorem vconnRun_spec (hok : v.Ok) (r : Replies) :
    (vconnRun r v).1.Ok ∧ (HelloSafe v r → Balanced (vconnRun r v).2) ∧ (¬ HelloSafe v r → Short (vconnRun r v).2) ∧
      (vconnRun r v).1.state ≠ .sendHello ∧
      ((vconnRun r v).1.state = .connecting ↔ v.state = .connecting ∧ r.connect.Pending) := by
  unfold vconnRun
  split
  case isTrue h =>
    have hconnect : Attempt v r (vconnConnect r v) := attempt_vconnConnect hok r
    exact ⟨hconnect.ok, hconnect.balanced, hconnect.short, hconnect.sendHello, hconnect.connecting⟩
  case isFalse h =>
    push Not at h
    exact ⟨hok, fun _ => balanced_nil, fun hnot => absurd (helloSafe_of_state h.2.1 h.1) hnot, h.2.1,
      ⟨fun hs => absurd hs h.1, fun hs => absurd hs.1 h.1⟩⟩

theorem rconnRun_call (hok : rc.Ok) (r r' : Replies) :
    ∃ rc', Call (Event.Safe rc (.run r r')) (rconnRun rc r r') rc' := by
  cases hv : rc.vconn with
  | none =>
      have hvoid : rc.state = .void := by
        by_contra hne
        obtain ⟨v, hsome⟩ := hok.vconn hne
        rw [hv] at hsome
        cases hsome
      have heq : rconnRun rc r r' = ⟨[], some rc⟩ := by
        rw [rconnRun, rconnRunVconn, hv, pure_bind, if_neg (by rw [hvoid]; exact RconnState.noConfusion)]
        rfl
      have hsafe : Event.Safe rc (.run r r') := fun v' hv' => by
        rw [hv] at hv'
        cases hv'
      rw [heq]
      exact ⟨rc, rfl, hok, fun _ => rfl, fun h => absurd hsafe h⟩
  | some v =>
      obtain ⟨hok', hbalanced, hshort, hnsend, hconnecting⟩ := vconnRun_spec (hok.each v hv) r
      obtain ⟨⟨v', os⟩, hrun⟩ : ∃ run, vconnRun r v = run := ⟨_, rfl⟩
      rw [hrun] at hok' hbalanced hshort hnsend hconnecting
      have hhead : rconnRunVconn rc r = ⟨os, some { rc with vconn := some v' }⟩ := by
        rw [rconnRunVconn, hv]
        simp only [hrun]
        exact emits_then os _
      have hiff : Event.Safe rc (.run r r') ↔ HelloSafe v r ∧ (rc.state = .connecting → HelloSafe v' r') := by
        have hsends : SendsHello v' r' ↔ (v.state = .connecting ∧ r.connect.Pending) ∧ r'.connect = .done := by
          rw [SendsHello, or_iff_right hnsend, hconnecting]
        have hsecond : HelloSafe v' r' ↔
            (v.state = .connecting ∧ r.connect.Pending → r'.connect = .done → r'.hello.Whole 8 ∨ r'.hello.Refused) := by
          rw [HelloSafe, hsends, and_imp]
        rw [hsecond]
        exact ⟨fun h => h v hv, fun h v₁ hv₁ => Option.some.inj (hv.symm.trans hv₁) ▸ h⟩
      by_cases hstate : rc.state = .connecting
      · have hconnect : Attempt v' r' (vconnConnect r' v') := attempt_vconnConnect hok' r'
        have heq : rconnRun rc r r' = ⟨os ++ (vconnConnect r' v').2.2,
            some (Rconn.settled { rc with vconn := some (vconnConnect r' v').2.1 } (vconnConnect r' v').1 .active)⟩ := by
          rw [rconnRun, Exec.bind_of_some _ (congrArg Exec.result hhead), hhead, if_pos hstate, Exec.deref_some_bind]
          rw [emits_then]
        rw [heq]
        refine ⟨_, rfl, ok_settled hconnect.ok _ _ _, fun h => ?_, fun h => ?_⟩
        · obtain ⟨hfirst, hsecond⟩ := hiff.mp h
          exact (hbalanced hfirst).append (hconnect.balanced (hsecond hstate))
        · by_cases hfirst : HelloSafe v r
          · exact (hbalanced hfirst).append_short (hconnect.short fun hsecond => h (hiff.mpr ⟨hfirst, fun _ => hsecond⟩))
          · exact (hshort hfirst).append_le hconnect.le
      · have heq : rconnRun rc r r' = ⟨os, some { rc with vconn := some v' }⟩ := by
          rw [rconnRun, Exec.bind_of_some _ (congrArg Exec.result hhead), hhead, if_neg hstate, Exec.outs_pure,
            List.append_nil, Exec.result_pure]
        rw [heq]
        exact ⟨_, rfl, ⟨fun _ => ⟨v', rfl⟩, fun v₁ hv₁ => Option.some.inj hv₁ ▸ hok'⟩, fun h => hbalanced (hiff.mp h).1,
          fun h => hshort fun hfirst => h (hiff.mpr ⟨hfirst, fun hc => absurd hc hstate⟩)⟩

/-- A call is one of these, whichever it is. -/
theorem rconnMachine_call (hok : rc.Ok) (e : Event) : ∃ rc', Call (e.Safe rc) (rconnMachine.step rc e) rc' := by
  cases e with
  | send msg r w => exact rconnSend_call hok msg r w
  | recv r reply => exact rconnRecv_call hok r reply
  | run r r' => exact rconnRun_call hok r r'

theorem ok_newRconn (accepted : Option Bool) : (newRconn accepted).Ok := by
  have hvconn (status : Int) (h : status = eagain ∨ status = 0) : (vconnInit status).Ok := by
    refine ⟨rfl, fun hs => ?_⟩
    rcases h with rfl | rfl <;> cases hs
  cases accepted with
  | none => exact ⟨fun _ => ⟨_, rfl⟩, fun v hv => Option.some.inj hv ▸ hvconn 0 (Or.inr rfl)⟩
  | some atOnce =>
      refine ⟨fun _ => ⟨_, rfl⟩, fun v hv => Option.some.inj hv ▸ hvconn _ ?_⟩
      cases atOnce
      · exact Or.inl rfl
      · exact Or.inr rfl

end Rconn

/-- What the peer has been sent, with what is kept for it, is what was reported as sent. -/
def Faithful (s : Rconn × List Output) : Prop := written s.2 ++ kept s.1 = (reported s.2).flatten

theorem faithful_iff {s : Rconn × List Output} (hok : s.1.Ok) : Faithful s ↔ Balanced s.2 := by
  rw [Faithful, hok.kept_eq, List.append_nil, Balanced]

/-- `rfpbuf_status`. -/
inductive RfpbufStatus where
  | empty | error | pending
  deriving DecidableEq

/-- `rfpbuf_write`: its status and the bytes that the stream has taken. `nbytes` is a `size_t`, so that it is never
below zero: a failed write looks like one of 2^64 - 1 bytes. -/
def rfpbufWrite (b : Rfpbuf) : Write → RfpbufStatus × List UInt8
  | .took k => (if min k b.size < b.size then .pending else .empty, b.data.take k)
  | .failed _ _ => (if 2 ^ 64 - 1 < b.size then .pending else .empty, [])

/-- What becomes of a `ctrl_client`: it is told to send a message, or it is stopped. -/
inductive CtrlEvent where
  | sendMessage (obuf : Rfpbuf) (w : Write)
  | stop

/-- `ctrl_send_message` on the socket `sock`: it returns 0 for every status. -/
def ctrlSendMessage (sock : Int) (obuf : Rfpbuf) (w : Write) : List Output :=
  if sock < 0 then
    [.returned obuf.data (-1)]
  else
    let (status, bytes) := rfpbufWrite obuf w
    match status with
    | .error | .empty | .pending => [.wrote bytes, .returned obuf.data 0]

/-- The state is the socket; `ctrl_client_stop` closes it. -/
def ctrlMachine : Machine Int CtrlEvent Output where
  step sock
    | .sendMessage obuf w => ⟨ctrlSendMessage sock obuf w, some sock⟩
    | .stop => ⟨[], some (-1)⟩

/-- Each write on the open socket takes all it is given. -/
def CtrlEvent.Safe (sock : Int) : CtrlEvent → Prop
  | .sendMessage obuf w => 0 ≤ sock → w.Whole obuf.size
  | .stop => True

theorem ctrlSendMessage_spec (sock : Int) (obuf : Rfpbuf) (w : Write) :
    ((0 ≤ sock → w.Whole obuf.size) → Balanced (ctrlSendMessage sock obuf w)) ∧
      (¬ (0 ≤ sock → w.Whole obuf.size) → Short (ctrlSendMessage sock obuf w)) := by
  by_cases hsock : sock < 0
  · rw [ctrlSendMessage, if_pos hsock]
    exact ⟨fun _ => rfl, fun h => absurd (fun hle => absurd hsock (Int.not_lt.mpr hle)) h⟩
  · have hopen : 0 ≤ sock := Int.not_lt.mp hsock
    have heq : ctrlSendMessage sock obuf w = [.wrote (rfpbufWrite obuf w).2] ++ [.returned obuf.data 0] := by
      rw [ctrlSendMessage, if_neg hsock]
      obtain ⟨⟨status, bytes⟩, hwrite⟩ : ∃ p, rfpbufWrite obuf w = p := ⟨_, rfl⟩
      rw [hwrite]
      cases status <;> rfl
    have hpos : 0 < obuf.data.length := Nat.lt_of_lt_of_le (by decide) obuf.header_le
    rw [heq]
    cases w with
    | took k =>
        refine ⟨fun h => ?_, fun h => short_wrote ?_⟩
        · have hall : (rfpbufWrite obuf (.took k)).2 = obuf.data := List.take_of_length_le (h hopen)
          rw [hall]
          exact balanced_wrote _
        · have hless : ¬ obuf.size ≤ k := fun hk => h fun _ => hk
          exact Nat.lt_of_le_of_lt (List.length_take_le k obuf.data) (Nat.lt_of_not_le hless)
    | failed errno pos => exact ⟨fun h => (h hopen).elim, fun _ => short_wrote hpos⟩

/-- A call that is not safe ends the faithfulness of an rconn. -/
theorem not_faithful_of_call {s : Rconn × List Output} (hok : s.1.Ok) (hbalanced : Balanced s.2) {e : Event}
    (hnot : ¬ e.Safe s.1) : ∃ t, (rconnMachine.traced.step s e).result = some t ∧ ¬ Faithful t := by
  obtain ⟨rc', hcall⟩ := rconnMachine_call hok e
  refine ⟨(rc', s.2 ++ (rconnMachine.step s.1 e).outs),
    rconnMachine.result_traced_eq_some.mpr ⟨hcall.result, rfl⟩, fun hfaithful => ?_⟩
  exact (hbalanced.append_short (hcall.short hnot)).not_balanced ((faithful_iff hcall.ok).mp hfaithful)

theorem not_balanced_of_ctrlEvent {s : Int × List Output} (hbalanced : Balanced s.2) {e : CtrlEvent}
    (hnot : ¬ e.Safe s.1) : ∃ t, (ctrlMachine.traced.step s e).result = some t ∧ ¬ Balanced t.2 := by
  cases e with
  | sendMessage obuf w =>
      refine ⟨(s.1, s.2 ++ ctrlSendMessage s.1 obuf w), ctrlMachine.result_traced_eq_some.mpr ⟨rfl, rfl⟩, ?_⟩
      exact (hbalanced.append_short ((ctrlSendMessage_spec s.1 obuf w).2 hnot)).not_balanced
  | stop => exact absurd trivial hnot

/-- A connection is faithful all the time exactly if each call on it is safe: on the controller's and datapath's side
and on the siblings'. -/
theorem sends_faithfully_iff (accepted : Option Bool) (calls : List Event) (sock : Int) (messages : List CtrlEvent) :
    (rconnMachine.traced.Throughout Faithful (newRconn accepted, []) calls ↔
      rconnMachine.traced.AllSteps (fun s e => e.Safe s.1) (newRconn accepted, []) calls) ∧
    (ctrlMachine.traced.Throughout (fun s => Balanced s.2) (sock, []) messages ↔
      ctrlMachine.traced.AllSteps (fun s e => e.Safe s.1) (sock, []) messages) := by
  constructor
  · refine rconnMachine.traced.throughout_iff_allSteps (J := fun s => s.1.Ok ∧ Balanced s.2) (Q := fun _ => True)
      (fun s h => (faithful_iff h.1).mpr h.2) ?_ (fun s e h => not_faithful_of_call h.1 h.2)
      ⟨ok_newRconn accepted, balanced_nil⟩ (rconnMachine.traced.throughout_true _ calls)
    rintro s e t ⟨hok, hbalanced⟩ - hsafe hstep
    obtain ⟨hresult, htrace⟩ := rconnMachine.result_traced_eq_some.mp hstep
    obtain ⟨rc', hcall⟩ := rconnMachine_call hok e
    rw [hcall.result] at hresult
    rw [← Option.some.inj hresult, htrace]
    exact ⟨hcall.ok, hbalanced.append (hcall.balanced hsafe)⟩
  · refine ctrlMachine.traced.throughout_iff_allSteps (J := fun s => Balanced s.2) (Q := fun _ => True)
      (fun s h => h) ?_ (fun s e h => not_balanced_of_ctrlEvent h) balanced_nil
      (ctrlMachine.traced.throughout_true _ messages)
    rintro s e t hbalanced - hsafe hstep
    obtain ⟨-, htrace⟩ := ctrlMachine.result_traced_eq_some.mp hstep
    rw [htrace]
    cases e with
    | sendMessage obuf w => exact hbalanced.append ((ctrlSendMessage_spec s.1 obuf w).1 hsafe)
    | stop => exact hbalanced.append balanced_nil

/-- What the system calls of a handshake come to that goes through at once. -/
def welcomed : Replies where
  connect := .done
  xid := 0
  hello := .took 8
  received := .message (helloOf 0)

/-- A message of eight bytes that half is taken of, sent by an rconn that has just been accepted, and one that a
control client sends while the socket's buffer is full. -/
theorem not_sends_faithfully :
    ¬ rconnMachine.traced.Throughout Faithful (newRconn none, []) [.send (helloOf 7) welcomed (.took 4)] ∧
      ¬ ctrlMachine.traced.Throughout (fun s => Balanced s.2) (5, [])
        [.sendMessage (helloOf 7) (.failed 11 (by decide))] := by
  constructor
  · intro h
    have hnot : ¬ Event.Safe (newRconn none) (.send (helloOf 7) welcomed (.took 4)) := fun hsafe =>
      absurd (hsafe rfl _ rfl).2 (by decide : ¬ 8 ≤ 4)
    obtain ⟨t, ht, hfaithful⟩ := not_faithful_of_call (s := (newRconn none, [])) (ok_newRconn none) balanced_nil hnot
    exact hfaithful (h.2 t ht)
  · intro h
    have hnot : ¬ CtrlEvent.Safe 5 (.sendMessage (helloOf 7) (.failed 11 (by decide))) := fun hsafe =>
      hsafe (by decide)
    obtain ⟨t, ht, hbalanced⟩ := not_balanced_of_ctrlEvent (s := (5, [])) balanced_nil hnot
    exact hbalanced (h.2 t ht)

end Harry.Sending
