import Harry.VconnFaithful

/-! One direction of a connection between a controller and a datapath, or a sibling: the rconn that sends, the
`vconn_stream_recv` of the peer, and the bytes between them. Either end goes on whenever it likes, and a read returns as
much as it likes of what is under way. -/

namespace Harry.Sending

open Harry.Base Harry.Rfp

/-- The end that sends, the end that receives with the bytes that are under way, and what each has done so far. -/
structure Direction where
  sender : Rconn
  receiver : Vconn.VconnStream
  sent : List Output
  got : List Vconn.Return

inductive DirectionEvent where
  | call (e : Event)
  | receive

/-- Bytes that have been written come to the peer. -/
def arrive (s : Vconn.VconnStream) (bytes : List UInt8) : Vconn.VconnStream :=
  { s with stream := { s.stream with bytes := s.stream.bytes ++ bytes } }

/-- A call on the rconn, and a call of `vconn_stream_recv`. -/
def direction : Machine Direction DirectionEvent Empty where
  step d
    | .call e =>
      ⟨[], (rconnMachine.step d.sender e).result.map fun sender =>
        { d with
          sender
          receiver := arrive d.receiver (written (rconnMachine.step d.sender e).outs)
          sent := d.sent ++ (rconnMachine.step d.sender e).outs }⟩
    | .receive =>
      ⟨[], (Vconn.vconnStreamRecv d.receiver).result.map fun receiver =>
        { d with receiver, got := d.got ++ (Vconn.vconnStreamRecv d.receiver).outs }⟩

/-- A new connection, with what the reads of the peer will come to. -/
def newDirection (accepted : Option Bool) (replies : Nat → Vconn.Reply) : Direction :=
  ⟨newRconn accepted, Vconn.connected [] replies, [], []⟩

/-- A message whose size its header can state. -/
def Event.Fits : Event → Prop
  | .send msg _ _ => msg.size < 2 ^ 16
  | .recv _ _ | .run _ _ => True

def DirectionEvent.Safe (d : Direction) : DirectionEvent → Prop
  | .call e => e.Safe d.sender ∧ e.Fits
  | .receive => True

section Reported

theorem isFrame_rfpmsgUpdateLength {m : Rfpbuf} (hm : m.size < 2 ^ 16) : framing.IsFrame (rfpmsgUpdateLength m).data := by
  refine ⟨(rfpmsgUpdateLength m).header_le, ?_⟩
  have hlength : headerLength (rfpmsgUpdateLength m).data = m.size := by
    obtain ⟨data, hdata⟩ := m
    match data, hdata, hm with
    | a :: b :: c :: d :: rest, hdata, hm =>
        have hbytes : (rfpmsgUpdateLength ⟨a :: b :: c :: d :: rest, hdata⟩).data =
            a :: b :: UInt8.ofNat ((rest.length + 4) / 2 ^ 8) :: UInt8.ofNat (rest.length + 4) :: rest := rfl
        have hlt : rest.length + 4 < 2 ^ 16 := hm
        rw [hbytes, headerLength]
        simp only [List.getD_cons_succ, List.getD_cons_zero, UInt8.toNat_ofNat', Rfpbuf.size, List.length_cons]
        omega
  exact hlength.trans (size_rfpmsgUpdateLength m).symm

/-- The messages that are reported, whether as sent or not, state their sizes. -/
def Whole (os : List Output) : Prop := ∀ msg retval, .returned msg retval ∈ os → framing.IsFrame msg

theorem Whole.append {os os' : List Output} (h : Whole os) (h' : Whole os') : Whole (os ++ os') := fun msg retval hmem =>
  (List.mem_append.mp hmem).elim (h msg retval) (h' msg retval)

theorem Whole.reported {os : List Output} (h : Whole os) : ∀ m ∈ reported os, framing.IsFrame m := by
  intro m hm
  obtain ⟨o, ho, hsome⟩ := List.mem_filterMap.mp hm
  cases o with
  | wrote bytes => cases hsome
  | returned msg retval =>
      dsimp only at hsome
      split at hsome
      · cases hsome
        exact h _ _ ho
      · cases hsome

theorem whole_doSend (v : Vconn) (msg : Rfpbuf) (w : Write) : Whole (doSend v msg w).2 := by
  intro m retval hmem
  unfold doSend vconnStreamSend at hmem
  split at hmem
  · exact absurd hmem List.not_mem_nil
  · dsimp only at hmem
    split at hmem
    · exact absurd (List.mem_singleton.mp hmem) nofun
    · split at hmem <;> exact absurd (List.mem_singleton.mp hmem) nofun

theorem whole_vcsPass (r : Replies) (v : Vconn) : Whole (vcsPass r v).2 := by
  have hnil : Whole [] := fun _ _ hmem => absurd hmem List.not_mem_nil
  unfold vcsPass
  cases v.state with
  | sendHello =>
      have hhello : Whole ((doSend v (helloOf r.xid) r.hello).2 ++
          [.returned (rfpmsgUpdateLength (helloOf r.xid)).data (doSend v (helloOf r.xid) r.hello).1]) := by
        refine (whole_doSend v _ _).append fun m retval hmem => ?_
        obtain ⟨rfl, rfl⟩ := Output.returned.inj (List.mem_singleton.mp hmem)
        exact isFrame_rfpmsgUpdateLength (show 8 < 2 ^ 16 by decide)
      simp only [vcsSendHello]
      split
      · exact hhello
      · split <;> exact hhello
  | _ => exact hnil

theorem whole_vconnConnect (r : Replies) (v : Vconn) : Whole (vconnConnect r v).2.2 := by
  have hnil : Whole [] := fun _ _ hmem => absurd hmem List.not_mem_nil
  induction v using vconnConnect.induct r with
  | case1 v hs => rw [vconnConnect_connected hs]; exact hnil
  | case2 v hs => rw [vconnConnect_disconnected hs]; exact hnil
  | case3 v pass hstays hne hne' =>
      rw [vconnConnect_stays hne hne' hstays]
      exact whole_vcsPass r v
  | case4 v pass hmoves hne hne' ih =>
      rw [vconnConnect_moves hne hne' hmoves]
      exact (whole_vcsPass r v).append ih

theorem whole_vconnSend (v : Vconn) (msg : Rfpbuf) (r : Replies) (w : Write) : Whole (vconnSend v msg r w).2.2 := by
  unfold vconnSend
  dsimp only
  split
  · exact (whole_vconnConnect r v).append (whole_doSend _ msg w)
  · exact whole_vconnConnect r v

theorem whole_vconnRecv (v : Vconn) (r : Replies) (reply : Received) : Whole (vconnRecv v r reply).2.2 := by
  have hconnect := whole_vconnConnect r v
  unfold vconnRecv
  dsimp only
  split
  · split <;> exact hconnect
  · exact hconnect

theorem whole_vconnRun (r : Replies) (v : Vconn) : Whole (vconnRun r v).2 := by
  unfold vconnRun
  split
  · exact whole_vconnConnect r v
  · exact fun _ _ hmem => absurd hmem List.not_mem_nil

theorem whole_nil : Whole [] := fun _ _ hmem => absurd hmem List.not_mem_nil

theorem whole_emits {os : List Output} (h : Whole os) {α : Type} {x : Exec Output α} (hx : Whole x.outs) :
    Whole (Exec.emits os >>= fun _ => x).outs := by
  rw [Exec.outs_emits_bind]
  exact h.append hx

theorem whole_deref {α : Type} {o : Option Vconn} {f : Vconn → Exec Output α} (h : ∀ v, Whole (f v).outs) :
    Whole (Exec.deref o >>= f).outs := by
  cases o with
  | none => exact whole_nil
  | some v => exact h v

theorem whole_bind {α β : Type} {x : Exec Output α} {f : α → Exec Output β} (h : Whole x.outs)
    (hf : ∀ a, Whole (f a).outs) : Whole (x >>= f).outs := by
  intro m retval hmem
  obtain hmem | ⟨a, -, hmem⟩ := Exec.mem_outs_bind.mp hmem
  · exact h m retval hmem
  · exact hf a m retval hmem

/-- No call reports anything but its message and the Hello. -/
theorem whole_call (rc : Rconn) {e : Event} (he : e.Fits) : Whole (rconnMachine.step rc e).outs := by
  cases e with
  | send msg r w =>
      have hmsg : ∀ retval, Whole [.returned (rfpmsgUpdateLength msg).data retval] := fun _ m retval hmem => by
        obtain ⟨rfl, rfl⟩ := Output.returned.inj (List.mem_singleton.mp hmem)
        exact isFrame_rfpmsgUpdateLength he
      show Whole (rconnSend rc msg r w).outs
      rw [rconnSend]
      split
      · exact whole_bind (whole_deref fun v => whole_emits (whole_vconnSend v msg r w) whole_nil) fun _ => hmsg 0
      · exact hmsg enotconn
  | recv r reply =>
      show Whole (rconnRecv rc r reply).outs
      rw [rconnRecv]
      split
      · exact whole_deref fun v => whole_emits (whole_vconnRecv v r reply) whole_nil
      · exact whole_nil
  | run r r' =>
      show Whole (rconnRun rc r r').outs
      refine whole_bind ?_ fun rc => ?_
      · rw [rconnRunVconn]
        split
        · exact whole_nil
        · exact whole_emits (whole_vconnRun r _) whole_nil
      · split
        · exact whole_deref fun v => whole_emits (whole_vconnConnect r' v) whole_nil
        · exact whole_nil

end Reported

/-! ### What is under way -/

/-- All that was reported as sent has been written, and the peer has handed over the messages of the part of it that it
has read. -/
structure Direction.Kept (replies : Nat → Vconn.Reply) (d : Direction) : Prop where
  ok : d.sender.Ok
  balanced : Balanced d.sent
  whole : Whole d.sent
  read : ∃ consumed, Vconn.At (written d.sent) replies d.receiver d.got consumed

section Kept

variable {replies : Nat → Vconn.Reply} {d : Direction}

theorem at_arrive {bytes consumed : List UInt8} {s : Vconn.VconnStream} {outs : List Vconn.Return}
    (h : Vconn.At bytes replies s outs consumed) (more : List UInt8) :
    Vconn.At (bytes ++ more) replies (arrive s more) outs consumed where
  bytes_eq := by rw [h.bytes_eq, List.append_assoc, arrive]
  replies_eq := h.replies_eq
  messages_eq := h.messages_eq
  pending_eq := h.pending_eq

theorem Direction.Kept.frames (h : d.Kept replies) :
    framing.frames (written d.sent) = reported d.sent ∧ framing.rest (written d.sent) = [] := by
  have hflatten := Framing.frames_flatten (x := []) h.whole.reported (Framing.not_begins_of_length_lt (by decide))
  rwa [List.append_nil, ← (h.balanced : written d.sent = _)] at hflatten

theorem Direction.Kept.call (h : d.Kept replies) {e : Event} (hsafe : e.Safe d.sender) (hfits : e.Fits) :
    ∃ d', (direction.step d (.call e)).result = some d' ∧ d'.Kept replies := by
  obtain ⟨rc', hcall⟩ := rconnMachine_call h.ok e
  obtain ⟨consumed, hread⟩ := h.read
  refine ⟨_, congrArg (Option.map _) hcall.result, ⟨hcall.ok, h.balanced.append (hcall.balanced hsafe),
    h.whole.append (whole_call _ hfits), consumed, ?_⟩⟩
  rw [written_append]
  exact at_arrive hread _

/-- A call of `vconn_stream_recv` gets on, unless there is nothing under way or the read has nothing to return yet. -/
theorem Direction.Kept.receive (h : d.Kept replies) :
    ∃ d', (direction.step d .receive).result = some d' ∧ d'.Kept replies ∧ d'.sent = d.sent ∧
      (d.receiver.stream.bytes = [] ∨ d'.receiver.stream.bytes.length < d.receiver.stream.bytes.length ∨
        d'.receiver.stream.bytes.length = d.receiver.stream.bytes.length ∧
          ¬ (replies d.receiver.stream.reads).Delivers ∧ d'.receiver.stream.reads = d.receiver.stream.reads + 1) := by
  obtain ⟨consumed, hread⟩ := h.read
  obtain ⟨s', outs, got, hstep, hcall⟩ := Vconn.vconnStreamRecv_call hread.not_begins
  have hmalformed : ¬ framing.Malformed d.receiver.pending := fun hm => by
    have hrest := (hread.of_malformed hm).2
    rw [h.frames.2] at hrest
    exact absurd hrest.header_le (by decide)
  refine ⟨{ d with receiver := s', got := d.got ++ outs }, ?_, ⟨h.ok, h.balanced, h.whole, consumed ++ got,
    hread.call hcall⟩, rfl, ?_⟩
  · show (Vconn.vconnStreamRecv d.receiver).result.map _ = _
    rw [hstep]
    rfl
  · have hlength := congrArg List.length hcall.bytes
    rw [List.length_append] at hlength
    by_cases hgot : got = []
    · obtain hnil | hm | hb | ⟨hreply, hreads⟩ := hcall.progress hgot
      · exact .inl hnil
      · exact absurd hm hmalformed
      · exact absurd hb hread.not_begins
      · rw [Stream.reply, hread.replies_eq] at hreply
        rw [hgot, List.length_nil, Nat.zero_add] at hlength
        exact .inr (.inr ⟨hlength.symm, hreply, hreads⟩)
    · have hpos := List.length_pos_of_ne_nil hgot
      have hless : s'.stream.bytes.length < d.receiver.stream.bytes.length := by omega
      exact .inr (.inl hless)

theorem Direction.Kept.messages_eq (h : d.Kept replies) (hnil : d.receiver.stream.bytes = []) :
    Vconn.messages d.got = reported d.sent := by
  obtain ⟨consumed, hread⟩ := h.read
  rw [hread.messages_of_done (.inl hnil), h.frames.1]

/-- Until a read returns something the receiver waits. -/
theorem Direction.Kept.wait {k : Nat} (h : d.Kept replies) (hk : (replies (d.receiver.stream.reads + k)).Delivers) :
    ∃ n d', (direction.run d (List.replicate n .receive)).result = some d' ∧ d'.Kept replies ∧ d'.sent = d.sent ∧
      (d'.receiver.stream.bytes = [] ∨ d'.receiver.stream.bytes.length < d.receiver.stream.bytes.length) := by
  induction k generalizing d with
  | zero =>
      obtain ⟨d', hstep, hkept, hsent, hprogress⟩ := h.receive
      obtain hnil | hless | ⟨-, hnot, -⟩ := hprogress
      · exact ⟨0, d, rfl, h, rfl, .inl hnil⟩
      · refine ⟨1, d', ?_, hkept, hsent, .inr hless⟩
        rw [List.replicate_one, Machine.run_cons, Exec.bind_of_some _ hstep]
        rfl
      · exact absurd hk hnot
  | succ k ih =>
      obtain ⟨d', hstep, hkept, hsent, hprogress⟩ := h.receive
      obtain hnil | hless | ⟨hsame, -, hreads⟩ := hprogress
      · exact ⟨0, d, rfl, h, rfl, .inl hnil⟩
      · refine ⟨1, d', ?_, hkept, hsent, .inr hless⟩
        rw [List.replicate_one, Machine.run_cons, Exec.bind_of_some _ hstep]
        rfl
      · rw [← Nat.add_assoc, Nat.add_right_comm, ← hreads] at hk
        obtain ⟨n, d'', hrun, hkept', hsent', hend⟩ := ih hkept hk
        refine ⟨n + 1, d'', ?_, hkept', hsent'.trans hsent, hend.imp_right fun hlt => hsame ▸ hlt⟩
        rw [List.replicate_succ, Machine.run_cons, Exec.bind_of_some _ hstep]
        exact hrun

/-- Calls of `vconn_stream_recv` alone come to the end of what is under way. -/
theorem Direction.Kept.drains (h : d.Kept replies) (hfair : ∀ i, ∃ j ≥ i, (replies j).Delivers) :
    ∃ n d', (direction.run d (List.replicate n .receive)).result = some d' ∧ d'.sent = d.sent ∧
      Vconn.messages d'.got = reported d'.sent := by
  induction hlength : d.receiver.stream.bytes.length using Nat.strongRecOn generalizing d with
  | ind length ih =>
      obtain ⟨j, hle, hj⟩ := hfair d.receiver.stream.reads
      obtain ⟨k, rfl⟩ := Nat.exists_eq_add_of_le hle
      obtain ⟨n, d', hrun, hkept, hsent, hend⟩ := h.wait hj
      obtain hnil | hless := hend
      · exact ⟨n, d', hrun, hsent, hkept.messages_eq hnil⟩
      · obtain ⟨n', d'', hrun', hsent', hall⟩ := ih _ (hlength ▸ hless) hkept rfl
        refine ⟨n + n', d'', ?_, hsent'.trans hsent, hall⟩
        rw [List.replicate_add, Machine.run_append, Exec.bind_of_some _ hrun]
        exact hrun'

end Kept

theorem kept_newDirection (accepted : Option Bool) (replies : Nat → Vconn.Reply) :
    (newDirection accepted replies).Kept replies :=
  ⟨ok_newRconn accepted, balanced_nil, whole_nil, [], Vconn.At.connected [] replies⟩

theorem Direction.Kept.run {replies : Nat → Vconn.Reply} {d : Direction} (h : d.Kept replies) {es : List DirectionEvent}
    (hes : direction.AllSteps (fun d e => e.Safe d) d es) :
    ∃ d', (direction.run d es).result = some d' ∧ d'.Kept replies := by
  induction es generalizing d with
  | nil => exact ⟨d, rfl, h⟩
  | cons e es ih =>
      obtain ⟨hsafe, hes⟩ := hes
      obtain ⟨d', hstep, hkept⟩ : ∃ d', (direction.step d e).result = some d' ∧ d'.Kept replies := by
        cases e with
        | call e => exact h.call hsafe.1 hsafe.2
        | receive =>
            obtain ⟨d', hstep, hkept, -⟩ := h.receive
            exact ⟨d', hstep, hkept⟩
      obtain ⟨d'', hrun, hkept'⟩ := ih hkept (hes d' hstep)
      refine ⟨d'', ?_, hkept'⟩
      rw [Machine.run_cons, Exec.bind_of_some _ hstep]
      exact hrun

/-- However the two ends take turns and the stream is cut into reads, what the peer has been handed are the first of the
messages that were reported as sent, each once, in order and as it was; and when it goes on reading it comes to get them
all. The calls of the sender are those that lose nothing. -/
theorem delivered_of_run (accepted : Option Bool) (replies : Nat → Vconn.Reply)
    (hfair : ∀ i, ∃ j ≥ i, (replies j).Delivers) (es : List DirectionEvent)
    (hes : direction.AllSteps (fun d e => e.Safe d) (newDirection accepted replies) es) :
    ∃ d, (direction.run (newDirection accepted replies) es).result = some d ∧
      Vconn.messages d.got <+: reported d.sent ∧
      ∃ n d', (direction.run (newDirection accepted replies) (es ++ List.replicate n .receive)).result = some d' ∧
        d'.sent = d.sent ∧ Vconn.messages d'.got = reported d'.sent := by
  obtain ⟨d, hrun, hkept⟩ := (kept_newDirection accepted replies).run hes
  obtain ⟨consumed, hread⟩ := hkept.read
  obtain ⟨n, d', hdrain, hsent, hall⟩ := hkept.drains hfair
  refine ⟨d, hrun, ?_, n, d', ?_, hsent, hall⟩
  · rw [← hkept.frames.1]
    exact hread.messages_initial
  · rw [Machine.run_append, Exec.bind_of_some _ hrun]
    exact hdrain

/-- A message sent by an rconn that has just been accepted, and reads of one byte that find nothing every other time. -/
theorem delivered_of_run_bytewise :
    let replies : Nat → Vconn.Reply := fun i => if i % 2 = 0 then .error 11 else .bytes 0
    let es : List DirectionEvent := [.receive, .call (.send (helloOf 7) welcomed (.took 8)), .receive]
    ∃ d, (direction.run (newDirection none replies) es).result = some d ∧ Vconn.messages d.got <+: reported d.sent ∧
      ∃ n d', (direction.run (newDirection none replies) (es ++ List.replicate n .receive)).result = some d' ∧
        d'.sent = d.sent ∧ Vconn.messages d'.got = reported d'.sent := by
  intro replies es
  have hfair : ∀ i, ∃ j ≥ i, (replies j).Delivers := by
    intro i
    refine ⟨2 * i + 1, by omega, ?_⟩
    have hodd : ¬ (2 * i + 1) % 2 = 0 := by omega
    simp only [replies, if_neg hodd]
    trivial
  have hfits : (helloOf 7).size < 2 ^ 16 := by decide
  refine delivered_of_run none replies hfair es
    ⟨trivial, fun d hd => ⟨⟨?_, hfits⟩, fun _ _ => ⟨trivial, fun _ _ => trivial⟩⟩⟩
  have hsender : d.sender = newRconn none := by
    rw [Option.mem_def] at hd
    simp only [direction] at hd
    obtain ⟨s', -, rfl⟩ := Option.map_eq_some_iff.mp hd
    rfl
  show Event.Safe d.sender _
  rw [hsender]
  intro _ v hv
  obtain rfl := Option.some.inj hv
  exact ⟨⟨Nat.le_refl 8, helloOf 0, rfl, by decide, by decide⟩, Nat.le_refl 8⟩

end Harry.Sending
