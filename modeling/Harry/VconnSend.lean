import Harry.RfpMessage
import Harry.VconnStream

/-! The sending side of a connection: `rconn_send` with the layers below it (`try_send`, `vconn_send` with its
handshake, `vconn_stream_send`), and `ctrl_send_message` of the siblings. Each layer turns the result of a `write`
into a return code. No layer keeps what was not written, so that a connection is faithful to what it reported as
sent as long as every write takes all it is given. -/

namespace Harry.Sending

open Harry.Base Harry.Rfp
open Harry.Vconn (eagain eproto eof)

/-- `ECONNRESET`. -/
def econnreset : Int := 104

/-- `ENOTCONN`. -/
def enotconn : Int := 107

/-- What one `write` may do: take up to `k` bytes, or fail with an error number. -/
inductive Write where
  | took (k : Nat)
  | failed (errno : Nat) (pos : 0 < errno)

/-- `fd_send`: what it returns, and the bytes that the stream has taken. -/
def fdSend (bytes : List UInt8) : Write → Int × List UInt8
  | .took k => (if min k bytes.length = 0 then -eagain else (min k bytes.length : Nat), bytes.take k)
  | .failed errno _ => (-errno, [])

/-- What a call does that the peer or the caller can see: bytes put on the stream, and the return of a message. -/
inductive Output where
  | wrote (bytes : List UInt8)
  | returned (msg : List UInt8) (retval : Int)

/-- The byte stream that the peer sees. -/
def written (os : List Output) : List UInt8 :=
  os.flatMap fun
    | .wrote bytes => bytes
    | .returned _ _ => []

/-- The messages that were reported as sent. -/
def reported (os : List Output) : List (List UInt8) :=
  os.filterMap fun
    | .wrote _ => none
    | .returned msg retval => if retval = 0 then some msg else none

@[simp] theorem written_append (os os' : List Output) : written (os ++ os') = written os ++ written os' :=
  List.flatMap_append

@[simp] theorem reported_append (os os' : List Output) : reported (os ++ os') = reported os ++ reported os' :=
  List.filterMap_append

/-- `enum vconn_state`. -/
inductive VcsState where
  | connecting | sendHello | recvHello | connected | sendError | disconnected
  deriving DecidableEq

/-- `struct vconn` with the transmit buffer of its stream. `vconn_open` and `pvconn_accept` set the version that
`vconn_connect` asserts to be positive. -/
structure Vconn where
  state : VcsState
  error : Int
  minVersion : Nat
  txbuf : Option (List UInt8)
  minVersion_pos : 0 < minVersion

/-- `vconn_stream_send`: the return value and what it has done. The lines that would keep a rest in `txbuf` are
commented out. -/
def vconnStreamSend (v : Vconn) (buffer : Rfpbuf) (w : Write) : Int × List Output :=
  if v.txbuf.isSome then
    (eagain, [])
  else
    let (retval, bytes) := fdSend buffer.data w
    if retval = buffer.size then (0, [.wrote bytes])
    else if 0 ≤ retval ∨ retval = -eagain then (0, [.wrote bytes])
    else (-retval, [.wrote bytes])

/-- `rfpmsg_update_length`. -/
def rfpmsgUpdateLength (m : Rfpbuf) : Rfpbuf where
  data := m.data.take 2 ++ htons m.size ++ m.data.drop 4
  header_le := by
    have := m.header_le
    simp only [htons, List.length_append, List.length_take, List.length_drop, List.length_cons, List.length_nil]
    omega

/-- `do_send`. -/
def doSend (v : Vconn) (msg : Rfpbuf) (w : Write) : Int × List Output := vconnStreamSend v (rfpmsgUpdateLength msg) w

/-- What the connection attempt of the stream has come to. -/
inductive Connect where
  | done
  | again
  | failed (errno : Nat) (pos : 0 < errno)

/-- What `do_recv` returns: a message and 0, or something else than 0. -/
inductive Received where
  | message (b : Rfpbuf)
  | failed (retval : Int) (ne : retval ≠ 0)

/-- What the system calls made by one call of `vconn_connect` come to, and the transaction id of its Hello. -/
structure Replies where
  connect : Connect
  xid : UInt32
  hello : Write
  received : Received

/-- `vcs_connecting`. -/
def vcsConnecting (v : Vconn) : Connect → Vconn
  | .done => { v with state := .sendHello }
  | .again => v
  | .failed errno _ => if (errno : Int) = eagain then v else { v with state := .disconnected, error := errno }

/-- The Hello of the connection. -/
def helloOf (xid : UInt32) : Rfpbuf := Rfpbuf.routeflowAllocXid .hello xid []

/-- `vcs_send_hello`. -/
def vcsSendHello (v : Vconn) (xid : UInt32) (w : Write) : Vconn × List Output :=
  let (retval, os) := doSend v (helloOf xid) w
  let os := os ++ [.returned (rfpmsgUpdateLength (helloOf xid)).data retval]
  if retval = 0 then ({ v with state := .recvHello }, os)
  else if retval ≠ eagain then ({ v with state := .disconnected, error := retval }, os)
  else (v, os)

/-- `vcs_recv_hello`. -/
def vcsRecvHello (v : Vconn) : Received → Vconn
  | .message b =>
      if b.type = some .hello then
        { v with state := if min 1 (b.data.getD 0 0).toNat < v.minVersion then .sendError else .connected }
      else
        { v with state := .disconnected, error := eproto }
  | .failed retval _ =>
      if retval = eagain then v
      else { v with state := .disconnected, error := if retval = eof then econnreset else retval }

/-- One pass of the loop in `vconn_connect`. -/
def vcsPass (r : Replies) (v : Vconn) : Vconn × List Output :=
  match v.state with
  | .connecting => (vcsConnecting v r.connect, [])
  | .sendHello => vcsSendHello v r.xid r.hello
  | .recvHello => (vcsRecvHello v r.received, [])
  | .connected | .sendError | .disconnected => (v, [])

/-- How many states are ahead. -/
def VcsState.rank : VcsState → Nat
  | .connecting => 3
  | .sendHello => 2
  | .recvHello => 1
  | .connected | .sendError | .disconnected => 0

theorem rank_vcsPass {r : Replies} {v : Vconn} (h : (vcsPass r v).1.state ≠ v.state) :
    (vcsPass r v).1.state.rank < v.state.rank := by
  revert h
  unfold vcsPass
  cases hs : v.state
  case connecting =>
    cases hc : r.connect
    case done => exact fun _ => Nat.lt_succ_self 2
    case again => exact fun h => absurd hs h
    case failed errno =>
      simp only [vcsConnecting]
      split
      · exact fun h => absurd hs h
      · exact fun _ => Nat.succ_pos 2
  case sendHello =>
    simp only [vcsSendHello]
    split
    · exact fun _ => Nat.lt_succ_self 1
    · split
      · exact fun _ => Nat.succ_pos 1
      · exact fun h => absurd hs h
  case recvHello =>
    cases hc : r.received
    case message b =>
      simp only [vcsRecvHello]
      split
      · split <;> exact fun _ => Nat.one_pos
      · exact fun _ => Nat.one_pos
    case failed retval =>
      simp only [vcsRecvHello]
      split
      · exact fun h => absurd hs h
      · exact fun _ => Nat.one_pos
  all_goals exact fun h => absurd hs h

/-- `vconn_connect`: passes as long as they change the state. -/
def vconnConnect (r : Replies) (v : Vconn) : Int × Vconn × List Output :=
  match v.state with
  | .connected => (0, v, [])
  | .disconnected => (v.error, v, [])
  | _ =>
    let pass := vcsPass r v
    if _h : pass.1.state = v.state then (eagain, pass.1, pass.2)
    else
      let next := vconnConnect r pass.1
      (next.1, next.2.1, pass.2 ++ next.2.2)
termination_by v.state.rank
decreasing_by exact rank_vcsPass _h

/-- `vconn_send`. -/
def vconnSend (v : Vconn) (msg : Rfpbuf) (r : Replies) (w : Write) : Int × Vconn × List Output :=
  let (retval, v, os) := vconnConnect r v
  if retval = 0 then
    let (retval, os') := doSend v msg w
    (retval, v, os ++ os')
  else
    (retval, v, os)

/-- `vconn_recv`. -/
def vconnRecv (v : Vconn) (r : Replies) (reply : Received) : Int × Vconn × List Output :=
  let (retval, v, os) := vconnConnect r v
  if retval = 0 then
    match reply with
    | .message _ => (0, v, os)
    | .failed retval _ => (retval, v, os)
  else
    (retval, v, os)

/-! ### The rconn -/

/-- `enum state` of an rconn. -/
inductive RconnState where
  | void | backoff | connecting | active | idle
  deriving DecidableEq

/-- `struct rconn`. -/
structure Rconn where
  state : RconnState
  vconn : Option Vconn

/-- `rconn_is_connected`. -/
def Rconn.isConnected (rc : Rconn) : Bool := rc.state = .active ∨ rc.state = .idle

/-- `rconn_disconnect`. -/
def rconnDisconnect (rc : Rconn) : Rconn := if rc.state ≠ .void then ⟨.void, none⟩ else rc

/-- What `try_send`, `rconn_recv` and `run_CONNECTING` do about a return value. -/
def Rconn.settled (rc : Rconn) (retval : Int) (ok : RconnState) : Rconn :=
  if retval = 0 then { rc with state := ok } else if retval ≠ eagain then rconnDisconnect rc else rc

/-- `try_send`. -/
def trySend (rc : Rconn) (msg : Rfpbuf) (r : Replies) (w : Write) : Exec Output Rconn := do
  let v ← Exec.deref rc.vconn
  let sent := vconnSend v msg r w
  Exec.emits sent.2.2
  pure (Rconn.settled { rc with vconn := some sent.2.1 } sent.1 rc.state)

/-- `rconn_send`. What `try_send` returns is not looked at. -/
def rconnSend (rc : Rconn) (msg : Rfpbuf) (r : Replies) (w : Write) : Exec Output Rconn :=
  if rc.isConnected then do
    let rc ← trySend rc msg r w
    Exec.emit (.returned (rfpmsgUpdateLength msg).data 0)
    pure rc
  else do
    Exec.emit (.returned (rfpmsgUpdateLength msg).data enotconn)
    pure rc

/-- `rconn_recv`. -/
def rconnRecv (rc : Rconn) (r : Replies) (reply : Received) : Exec Output Rconn :=
  if rc.isConnected then do
    let v ← Exec.deref rc.vconn
    let received := vconnRecv v r reply
    Exec.emits received.2.2
    pure (Rconn.settled { rc with vconn := some received.2.1 } received.1 .active)
  else
    pure rc

/-- `vconn_run`. -/
def vconnRun (r : Replies) (v : Vconn) : Vconn × List Output :=
  if v.state = .connecting ∨ v.state = .sendHello ∨ v.state = .recvHello then (vconnConnect r v).2 else (v, [])

/-- The vconn's part of `rconn_run`. -/
def rconnRunVconn (rc : Rconn) (r : Replies) : Exec Output Rconn :=
  match rc.vconn with
  | none => pure rc
  | some v => do
      Exec.emits (vconnRun r v).2
      pure { rc with vconn := some (vconnRun r v).1 }

/-- `rconn_run`. Of the states only `S_CONNECTING` has something to do, and the state it leads to has not. -/
def rconnRun (rc : Rconn) (r r' : Replies) : Exec Output Rconn := do
  let rc ← rconnRunVconn rc r
  if rc.state = .connecting then
    let v ← Exec.deref rc.vconn
    let retval := vconnConnect r' v
    Exec.emits retval.2.2
    pure (Rconn.settled { rc with vconn := some retval.2.1 } retval.1 .active)
  else
    pure rc

/-- What the program calls on an rconn, each with what the system calls in it come to. -/
inductive Event where
  | send (msg : Rfpbuf) (r : Replies) (w : Write)
  | recv (r : Replies) (reply : Received)
  | run (r r' : Replies)

def rconnMachine : Machine Rconn Event Output where
  step rc
    | .send msg r w => rconnSend rc msg r w
    | .recv r reply => rconnRecv rc r reply
    | .run r r' => rconnRun rc r r'

/-- `vconn_init`, with the version that is set next. -/
def vconnInit (connectStatus : Int) : Vconn where
  state := if connectStatus = eagain then .connecting else if connectStatus = 0 then .sendHello else .disconnected
  error := connectStatus
  minVersion := 1
  txbuf := none
  minVersion_pos := Nat.one_pos

/-- A new connection: one that was accepted (`rconn_connect_unreliably`), or one that is being opened (`reconnect`),
whose stream may be connected at once. -/
def newRconn : Option Bool → Rconn
  | none => ⟨.active, some (vconnInit 0)⟩
  | some atOnce => ⟨.connecting, some (vconnInit (if atOnce then 0 else eagain))⟩

/-- The peer has the messages that were reported as sent, one after another. -/
def Balanced (os : List Output) : Prop := written os = (reported os).flatten

/-- Something that was reported as sent has not been written. -/
def Short (os : List Output) : Prop := (written os).length < (reported os).flatten.length

theorem Short.not_balanced {os : List Output} (h : Short os) : ¬ Balanced os := fun hb => by
  rw [Short, hb] at h
  exact Nat.lt_irrefl _ h

theorem Balanced.append {os os' : List Output} (h : Balanced os) (h' : Balanced os') : Balanced (os ++ os') := by
  rw [Balanced, written_append, reported_append, List.flatten_append, h, h']

theorem Balanced.le {os : List Output} (h : Balanced os) : (written os).length ≤ (reported os).flatten.length :=
  Nat.le_of_eq (congrArg List.length h)

theorem Short.append_le {os os' : List Output} (h : Short os)
    (h' : (written os').length ≤ (reported os').flatten.length) : Short (os ++ os') := by
  rw [Short, written_append, reported_append, List.flatten_append, List.length_append, List.length_append]
  exact Nat.add_lt_add_of_lt_of_le h h'

theorem Balanced.append_short {os os' : List Output} (h : Balanced os) (h' : Short os') : Short (os ++ os') := by
  rw [Short, written_append, reported_append, List.flatten_append, List.length_append, List.length_append]
  exact Nat.add_lt_add_of_le_of_lt h.le h'

theorem balanced_nil : Balanced [] := rfl

theorem short_returned {msg : List UInt8} (h : 0 < msg.length) : Short [.returned msg 0] := by
  simpa [Short, written, reported] using h

theorem short_wrote {msg bytes : List UInt8} (h : bytes.length < msg.length) :
    Short ([.wrote bytes] ++ [.returned msg 0]) := by
  simpa [Short, written, reported] using h

theorem balanced_wrote (msg : List UInt8) : Balanced ([.wrote msg] ++ [.returned msg 0]) := by
  simp [Balanced, written, reported]

theorem balanced_refused (msg : List UInt8) {retval : Int} (h : retval ≠ 0) :
    Balanced ([.wrote []] ++ [.returned msg retval]) := by
  simp [Balanced, written, reported, h]

/-- The write takes all of `n` bytes. -/
def Write.Whole (n : Nat) : Write → Prop
  | .took k => n ≤ k
  | .failed _ _ => False

/-- The write fails, and not just for now. -/
def Write.Refused : Write → Prop
  | .took _ => False
  | .failed errno _ => (errno : Int) ≠ eagain

theorem size_rfpmsgUpdateLength (m : Rfpbuf) : (rfpmsgUpdateLength m).data.length = m.size := by
  have := m.header_le
  simp only [rfpmsgUpdateLength, htons, Rfpbuf.size, List.length_append, List.length_take, List.length_drop,
    List.length_cons, List.length_nil]
  omega

/-- What `do_send` makes of the return value of the write. -/
theorem doSend_of_fdSend {v : Vconn} (htx : v.txbuf = none) {msg : Rfpbuf} {w : Write} {retval : Int}
    {bytes : List UInt8} (h : fdSend (rfpmsgUpdateLength msg).data w = (retval, bytes)) :
    doSend v msg w = (if retval = msg.size ∨ 0 ≤ retval ∨ retval = -eagain then 0 else -retval, [.wrote bytes]) := by
  have hsize : (rfpmsgUpdateLength msg).size = msg.size := size_rfpmsgUpdateLength msg
  rw [doSend, vconnStreamSend, htx, h, hsize]
  by_cases h1 : retval = msg.size
  · simp only [h1, Option.isSome_none, Bool.false_eq_true, if_false, if_true, true_or]
  · by_cases h2 : 0 ≤ retval ∨ retval = -eagain
    · simp only [h1, h2, Option.isSome_none, Bool.false_eq_true, if_false, if_true, or_true]
    · simp only [h1, h2, Option.isSome_none, Bool.false_eq_true, if_false, or_false]

/-- The three ends of a write: the message is out, it is lost, or the caller hears about it. -/
theorem doSend_cases {v : Vconn} (htx : v.txbuf = none) (msg : Rfpbuf) (w : Write) :
    (w.Whole msg.size ∧ doSend v msg w = (0, [.wrote (rfpmsgUpdateLength msg).data])) ∨
    (¬ w.Whole msg.size ∧ ¬ w.Refused ∧ ∃ bytes : List UInt8, bytes.length < msg.size ∧
      doSend v msg w = (0, [.wrote bytes])) ∨
    (¬ w.Whole msg.size ∧ w.Refused ∧ ∃ errno, errno ≠ 0 ∧ errno ≠ eagain ∧ doSend v msg w = (errno, [.wrote []])) := by
  have hsize : (rfpmsgUpdateLength msg).data.length = msg.size := size_rfpmsgUpdateLength msg
  have hpos : 8 ≤ msg.size := msg.header_le
  cases w with
  | took k =>
      by_cases hk : msg.size ≤ k
      · have hret : fdSend (rfpmsgUpdateLength msg).data (.took k) =
            ((msg.size : Int), (rfpmsgUpdateLength msg).data) := by
          simp only [fdSend, hsize]
          rw [Nat.min_eq_right hk, if_neg (by omega), List.take_of_length_le (by rw [hsize]; exact hk)]
        refine Or.inl ⟨hk, ?_⟩
        rw [doSend_of_fdSend htx hret, if_pos (Or.inl rfl)]
      · have hless : ((rfpmsgUpdateLength msg).data.take k).length < msg.size := by
          rw [List.length_take, hsize]
          omega
        have hret : fdSend (rfpmsgUpdateLength msg).data (.took k) =
            (if k = 0 then -eagain else (k : Int), (rfpmsgUpdateLength msg).data.take k) := by
          simp only [fdSend, hsize]
          rw [Nat.min_eq_left (by omega)]
        refine Or.inr (Or.inl ⟨hk, id, (rfpmsgUpdateLength msg).data.take k, hless, ?_⟩)
        rw [doSend_of_fdSend htx hret, if_pos]
        split
        · exact Or.inr (Or.inr rfl)
        · exact Or.inr (Or.inl (Int.natCast_nonneg k))
  | failed errno pos =>
      have hret : fdSend (rfpmsgUpdateLength msg).data (.failed errno pos) = (-(errno : Int), []) := rfl
      by_cases he : (errno : Int) = eagain
      · refine Or.inr (Or.inl ⟨id, fun h => h he, [], Nat.lt_of_lt_of_le (by decide) hpos, ?_⟩)
        rw [doSend_of_fdSend htx hret, if_pos (Or.inr (Or.inr (congrArg Neg.neg he)))]
      · refine Or.inr (Or.inr ⟨id, he, errno, by omega, he, ?_⟩)
        rw [doSend_of_fdSend htx hret, if_neg, Int.neg_neg]
        omega

end Harry.Sending
