import Harry.RfpStream

/-! `vconn_stream_recv`, by which controller and datapath take messages off a stream. The buffer is kept between
the calls, and a call reads at most the rest of the header and then the rest of the message. Whatever the reads
return, the messages handed over are the frames of the part of the stream that has been read, and the buffer holds
the rest of it. -/

namespace Harry.Vconn

open Harry.Base Harry.Rfp

/-- `EAGAIN`. -/
def eagain : Int := 11

/-- `EPROTO`. -/
def eproto : Int := 71

/-- `EOF`. -/
def eof : Int := -1

/-- What one read of the stream may do: return up to `k + 1` bytes of those that have arrived, find the connection
closed, or fail with an error number (`EAGAIN` if nothing has arrived yet). -/
inductive Reply where
  | bytes (k : Nat)
  | closed
  | error (errno : Nat)
  deriving DecidableEq

/-- `struct vconn_stream`. -/
structure VconnStream where
  stream : Stream Reply
  rxbuf : Option Buffer
  nPackets : Nat

/-- What a call of `vconn_stream_recv` returns: a buffer in `*bufferp` and 0, or something else than 0. -/
inductive Return where
  | message (data : List UInt8)
  | failure (retval : Int)
  deriving DecidableEq

/-- `stream_recv` of a connected stream: what it returns and what it has put in the buffer. -/
def streamRecv (w : Stream Reply) (n : Nat) : Int × List UInt8 × Stream Reply :=
  match w.reply with
  | .bytes k =>
      let got := w.bytes.take (min (k + 1) n)
      if got = [] then (-eagain, [], w.advance 0) else (got.length, got, w.advance got.length)
  | .closed => (0, [], w.advance 0)
  | .error errno => (-errno, [], w.advance 0)

/-- `vconn_stream_recv__`. -/
def vconnStreamRecvUpTo (rx : Buffer) (w : Stream Reply) (rxLen : Nat) : Option (Int × Buffer × Stream Reply) :=
  let wantBytes := rxLen - rx.size
  let rx := rx.preallocTailroom wantBytes
  let (retval, got, w) := streamRecv w wantBytes
  if retval > 0 then
    (rx.write got).map fun rx => (if retval = wantBytes then 0 else eagain, rx, w)
  else if retval = 0 then
    some (if rx.size ≠ 0 then eproto else eof, rx, w)
  else
    some (-retval, rx, w)

/-- Read the header, unless it is there. -/
def recvHeader (rx : Buffer) (w : Stream Reply) : Option (Int × Buffer × Stream Reply) :=
  if rx.size < 8 then vconnStreamRecvUpTo rx w 8 else some (0, rx, w)

/-- Read the payload, as far as it is missing. -/
def recvPayload (rx : Buffer) (w : Stream Reply) : Option (Int × Buffer × Stream Reply) :=
  let rxLen := headerLength rx.data
  if rxLen < 8 then some (eproto, rx, w)
  else if rx.size < rxLen then vconnStreamRecvUpTo rx w rxLen
  else some (0, rx, w)

/-- The second half of `vconn_stream_recv`, with a whole header in the buffer. -/
def recvMessage (s : VconnStream) (rx : Buffer) (w : Stream Reply) : Exec Return VconnStream := do
  let (retval, rx, w) ← Exec.deref (recvPayload rx w)
  if retval ≠ 0 then
    Exec.emit (.failure retval)
    pure { s with stream := w, rxbuf := some rx }
  else
    Exec.emit (.message rx.data)
    pure { stream := w, rxbuf := none, nPackets := s.nPackets + 1 }

/-- `vconn_stream_recv`. -/
def vconnStreamRecv (s : VconnStream) : Exec Return VconnStream := do
  let rx := s.rxbuf.getD (rfpbufNew 1564)
  let (retval, rx, w) ← Exec.deref (recvHeader rx s.stream)
  if retval ≠ 0 then
    Exec.emit (.failure retval)
    pure { s with stream := w, rxbuf := some rx }
  else
    recvMessage s rx w

/-- The receiver as a machine: an event is one call. -/
def receiver : Machine VconnStream Unit Return := ⟨fun s _ => vconnStreamRecv s⟩

/-- A connection that has been made and not been read from. -/
def connected (bytes : List UInt8) (replies : Nat → Reply) : VconnStream := ⟨⟨bytes, replies, 0⟩, none, 0⟩

/-- What the first `n` calls return. -/
def returned (bytes : List UInt8) (replies : Nat → Reply) (n : Nat) : List Return :=
  (receiver.run (connected bytes replies) (List.replicate n ())).outs

/-- The messages among what calls return. -/
def messages (rs : List Return) : List (List UInt8) :=
  rs.filterMap fun
    | .message data => some data
    | .failure _ => none

@[simp] theorem messages_append (rs rs' : List Return) : messages (rs ++ rs') = messages rs ++ messages rs' :=
  List.filterMap_append

/-- A read that may happen on a connection that stays up. -/
def Reply.Alive : Reply → Prop
  | .bytes _ => True
  | .closed => False
  | .error errno => (errno : Int) = eagain

/-- A read that returns something of what there is. -/
def Reply.Delivers : Reply → Prop
  | .bytes _ => True
  | _ => False

/-- What one read towards a size of `rxLen` has done. -/
structure Got (rxLen : Nat) (rx rx' : Buffer) (w w' : Stream Reply) (retval : Int) (got : List UInt8) : Prop where
  data : rx'.data = rx.data ++ got
  length_le : rx.size + got.length ≤ rxLen
  bytes : w.bytes = got ++ w'.bytes
  replies : w'.replies = w.replies
  reads : w'.reads = w.reads + 1
  complete : retval = 0 ↔ rx.size + got.length = rxLen
  alive : w.reply.Alive → retval ≠ 0 → retval = eagain
  delivers : w.reply.Delivers → w.bytes ≠ [] → got ≠ []

theorem streamRecv_cases (w : Stream Reply) {n : Nat} (hn : 0 < n) :
    (∃ retval ≤ 0, streamRecv w n = (retval, [], w.advance 0) ∧ (w.reply.Alive → retval = -eagain) ∧
      (w.reply.Delivers → w.bytes = [])) ∨
    ∃ got : List UInt8, got ≠ [] ∧ got.length ≤ n ∧ w.bytes = got ++ w.bytes.drop got.length ∧
      streamRecv w n = ((got.length : Int), got, w.advance got.length) := by
  unfold streamRecv
  cases w.reply with
  | bytes k =>
      by_cases hgot : w.bytes.take (min (k + 1) n) = []
      · refine .inl ⟨-eagain, by decide, if_pos hgot, fun _ => rfl, fun _ => ?_⟩
        rcases List.take_eq_nil_iff.mp hgot with h | h
        · omega
        · exact h
      · refine .inr ⟨_, hgot, ?_, ?_, if_neg hgot⟩
        · rw [List.length_take]
          omega
        · exact (List.prefix_iff_eq_append.mp (List.take_prefix _ _)).symm
  | closed => exact .inl ⟨0, Int.le_refl 0, rfl, fun h => h.elim, fun h => h.elim⟩
  | error errno => exact .inl ⟨-errno, by omega, rfl, fun h => congrArg Neg.neg h, fun h => h.elim⟩

/-- Every read ends in one of the ways of `Got`, and it stays inside the buffer. -/
theorem vconnStreamRecvUpTo_got {rx : Buffer} {w : Stream Reply} {rxLen : Nat} (h : rx.size < rxLen) :
    ∃ retval rx' w' got, vconnStreamRecvUpTo rx w rxLen = some (retval, rx', w') ∧
      Got rxLen rx rx' w w' retval got := by
  have hwant : 0 < rxLen - rx.size := by omega
  rcases streamRecv_cases w hwant with ⟨retval, hle, hrecv, halive, hdelivers⟩ | ⟨got, hgot, hlen, hbytes, hrecv⟩
  · have hcall : vconnStreamRecvUpTo rx w rxLen =
        some (if retval = 0 then if (rx.preallocTailroom (rxLen - rx.size)).size ≠ 0 then eproto else eof else -retval,
          rx.preallocTailroom (rxLen - rx.size), w.advance 0) := by
      simp only [vconnStreamRecvUpTo, hrecv, if_neg (Int.not_lt.mpr hle)]
      split <;> rfl
    refine ⟨_, _, _, [], hcall, ?_⟩
    constructor
    case data => simp
    case length_le => exact Nat.le_of_lt h
    case bytes => rfl
    case replies => rfl
    case reads => rfl
    case complete =>
      apply iff_of_false
      · by_cases h0 : retval = 0
        · rw [if_pos h0]
          split <;> decide
        · rw [if_neg h0]
          omega
      · exact Nat.ne_of_lt h
    case alive =>
      intro ha _
      rw [halive ha]
      rfl
    case delivers =>
      intro hd hne
      exact absurd (hdelivers hd) hne
  · have hpos : 0 < got.length := List.length_pos_iff.mpr hgot
    obtain ⟨rx', hwrite, hdata⟩ := Buffer.write_eq_some got
      (Nat.le_trans hlen (rx.tailroom_preallocTailroom (rxLen - rx.size)))
    have hcall : vconnStreamRecvUpTo rx w rxLen =
        some (if (got.length : Int) = (rxLen - rx.size : Nat) then 0 else eagain, rx', w.advance got.length) := by
      simp only [vconnStreamRecvUpTo, hrecv, hwrite, Option.map_some]
      exact if_pos (by omega)
    refine ⟨_, _, _, got, hcall, ?_⟩
    constructor
    case data => rw [hdata, Buffer.data_preallocTailroom]
    case length_le => omega
    case bytes => exact hbytes
    case replies => rfl
    case reads => rfl
    case complete =>
      by_cases hfull : (got.length : Int) = (rxLen - rx.size : Nat)
      · rw [if_pos hfull]
        exact iff_of_true rfl (by omega)
      · rw [if_neg hfull]
        exact iff_of_false (by decide) (by omega)
    case alive =>
      intro _ hne
      split at hne
      · exact absurd rfl hne
      · rw [if_neg ‹_›]
    case delivers => exact fun _ _ => hgot

/-- The bytes read of a message that is not finished. -/
def VconnStream.pending (s : VconnStream) : List UInt8 := (s.rxbuf.getD (rfpbufNew 1564)).data

/-- What a call has done from some bytes of a message on, next to what the reference reader does with them and the
bytes that the call has read. -/
structure Call (x : List UInt8) (w : Stream Reply) (s' : VconnStream) (outs : List Return) (got : List UInt8) :
    Prop where
  bytes : w.bytes = got ++ s'.stream.bytes
  replies : s'.stream.replies = w.replies
  messages_eq : messages outs = framing.frames (x ++ got)
  pending_eq : s'.pending = framing.rest (x ++ got)
  /-- A header that is too short is reported, by the call that completes it and by each call after that. -/
  malformed : framing.Malformed s'.pending → outs = [.failure eproto]
  /-- On a connection that stays up nothing else is reported, but that the caller has to wait for more. -/
  alive : (∀ i, (w.replies i).Alive) → ∀ retval, .failure retval ∈ outs →
    retval = eagain ∨ framing.Malformed s'.pending
  /-- A call that gets nothing has made one read. -/
  progress : got = [] → w.bytes = [] ∨ framing.Malformed x ∨ framing.Begins x ∨
    ¬ w.reply.Delivers ∧ s'.stream.reads = w.reads + 1

/-- A read that stops in the middle of a message. -/
theorem Got.call {rxLen : Nat} {rx rx' : Buffer} {w w' : Stream Reply} {retval : Int} {got : List UInt8} {s : VconnStream}
    (h : Got rxLen rx rx' w w' retval got) (hne : retval ≠ 0) (hnot : ¬ framing.Begins rx'.data)
    (hmal : ¬ framing.Malformed rx'.data) :
    Call rx.data w { s with stream := w', rxbuf := some rx' } [.failure retval] got where
  bytes := h.bytes
  replies := h.replies
  messages_eq := by
    rw [← h.data, Framing.frames_of_not_begins hnot]
    rfl
  pending_eq := by
    rw [← h.data, Framing.rest_of_not_begins hnot]
    rfl
  malformed := fun hm => absurd hm hmal
  alive := by
    intro ha r hr
    cases List.mem_singleton.mp hr
    exact .inl (h.alive (ha _) hne)
  progress := by
    intro hnil
    by_cases hd : w.reply.Delivers
    · by_cases hb : w.bytes = []
      · exact .inl hb
      · exact absurd hnil (h.delivers hd hb)
    · exact .inr (.inr (.inr ⟨hd, h.reads⟩))

/-- A message that is whole after the bytes `got`. -/
theorem Call.of_isFrame {x : List UInt8} {w w' : Stream Reply} {rx' : Buffer} {got : List UInt8} (n : Nat)
    (hdata : rx'.data = x ++ got) (hframe : framing.IsFrame rx'.data) (hbytes : w.bytes = got ++ w'.bytes)
    (hreplies : w'.replies = w.replies) (hgot : got = [] → framing.Begins x) :
    Call x w ⟨w', none, n⟩ [.message rx'.data] got where
  bytes := hbytes
  replies := hreplies
  messages_eq := by
    rw [← hdata, Framing.frames_frame hframe]
    rfl
  pending_eq := by
    rw [← hdata, Framing.rest_frame hframe]
    rfl
  malformed := fun hm => absurd hm.header_le (Nat.not_le_of_lt (by decide : 0 < 8))
  alive := by
    intro _ r hr
    cases List.mem_singleton.mp hr
  progress := fun hnil => .inr (.inr (.inl (hgot hnil)))

/-- A message that begins with a header that is too short. -/
theorem Call.of_malformed {rx : Buffer} (w : Stream Reply) (n : Nat) (hm : framing.Malformed rx.data) :
    Call rx.data w ⟨w, some rx, n⟩ [.failure eproto] [] where
  bytes := rfl
  replies := rfl
  messages_eq := by
    rw [List.append_nil, Framing.frames_of_not_begins hm.not_begins]
    rfl
  pending_eq := by
    rw [List.append_nil, Framing.rest_of_not_begins hm.not_begins]
    rfl
  malformed := fun _ => rfl
  alive := fun _ _ _ => .inr hm
  progress := fun _ => .inr (.inl hm)

section Halves

variable {s : VconnStream} {rx rx' : Buffer} {w w' : Stream Reply} {retval : Int}

theorem recvMessage_of_failure (h : recvPayload rx w = some (retval, rx', w')) (hne : retval ≠ 0) :
    recvMessage s rx w = ⟨[.failure retval], some { s with stream := w', rxbuf := some rx' }⟩ := by
  rw [recvMessage, h, Exec.deref_some_bind]
  exact if_pos hne

theorem recvMessage_of_success (h : recvPayload rx w = some (0, rx', w')) :
    recvMessage s rx w = ⟨[.message rx'.data], some ⟨w', none, s.nPackets + 1⟩⟩ := by
  rw [recvMessage, h, Exec.deref_some_bind]
  rfl

theorem vconnStreamRecv_of_failure (h : recvHeader (s.rxbuf.getD (rfpbufNew 1564)) s.stream = some (retval, rx', w'))
    (hne : retval ≠ 0) :
    vconnStreamRecv s = ⟨[.failure retval], some { s with stream := w', rxbuf := some rx' }⟩ := by
  simp only [vconnStreamRecv, h, Exec.deref_some_bind]
  exact if_pos hne

theorem vconnStreamRecv_of_success (h : recvHeader (s.rxbuf.getD (rfpbufNew 1564)) s.stream = some (0, rx', w')) :
    vconnStreamRecv s = recvMessage s rx' w' := by
  simp only [vconnStreamRecv, h, Exec.deref_some_bind]
  rfl

end Halves

theorem recvMessage_call (s : VconnStream) {rx : Buffer} (w : Stream Reply) (hrx : 8 ≤ rx.size)
    (hnot : framing.Begins rx.data → framing.IsFrame rx.data) :
    ∃ s' outs got, recvMessage s rx w = ⟨outs, some s'⟩ ∧ Call rx.data w s' outs got := by
  by_cases hshort : headerLength rx.data < 8
  · have hpay : recvPayload rx w = some (eproto, rx, w) := if_pos hshort
    exact ⟨_, _, [], recvMessage_of_failure hpay (by decide), .of_malformed w s.nPackets ⟨hrx, hshort⟩⟩
  by_cases hmore : rx.size < headerLength rx.data
  · obtain ⟨retval, rx', w', got, hread, h⟩ := vconnStreamRecvUpTo_got (w := w) hmore
    have hpay : recvPayload rx w = some (retval, rx', w') := by
      rw [recvPayload, if_neg hshort, if_pos hmore, hread]
    have hsize : rx'.data.length = rx.size + got.length := by
      rw [h.data, List.length_append]
      rfl
    have hlength : headerLength rx'.data = headerLength rx.data := by
      rw [h.data]
      exact headerLength_append got hrx
    by_cases hne : retval = 0
    · subst hne
      have hfull := h.complete.mp rfl
      have hframe : framing.IsFrame rx'.data :=
        ⟨by rw [hsize]; exact Nat.le_trans hrx (Nat.le_add_right _ _), by rw [hsize, hfull]; exact hlength⟩
      refine ⟨_, _, got, recvMessage_of_success hpay, .of_isFrame _ h.data hframe h.bytes h.replies ?_⟩
      intro hnil
      rw [hnil, List.length_nil, Nat.add_zero] at hfull
      exact absurd hmore (by omega)
    · refine ⟨_, _, got, recvMessage_of_failure hpay hne, h.call hne ?_ ?_⟩
      · intro hb
        have hle : headerLength rx'.data ≤ rx'.data.length := hb.length_le
        have hfull := mt h.complete.mpr hne
        have := h.length_le
        omega
      · intro hm
        have hlt : headerLength rx'.data < 8 := hm.length_lt
        omega
  · have hpay : recvPayload rx w = some (0, rx, w) := by
      rw [recvPayload, if_neg hshort, if_neg hmore]
    have hb : framing.Begins rx.data := ⟨hrx, Nat.le_of_not_lt hshort, Nat.le_of_not_lt hmore⟩
    exact ⟨_, _, [], recvMessage_of_success hpay,
      .of_isFrame _ (List.append_nil _).symm (hnot hb) rfl rfl fun _ => hb⟩

/-- The two reads of one call, one after the other. -/
theorem Got.then {rxLen : Nat} {rx rx' : Buffer} {w w' : Stream Reply} {s' : VconnStream} {outs : List Return}
    {got got' : List UInt8} (h : Got rxLen rx rx' w w' 0 got) (hgot : got ≠ []) (h' : Call rx'.data w' s' outs got') :
    Call rx.data w s' outs (got ++ got') where
  bytes := by rw [h.bytes, h'.bytes, List.append_assoc]
  replies := by rw [h'.replies, h.replies]
  messages_eq := by rw [h'.messages_eq, h.data, List.append_assoc]
  pending_eq := by rw [h'.pending_eq, h.data, List.append_assoc]
  malformed := h'.malformed
  alive := by
    rw [← h.replies]
    exact h'.alive
  progress := fun hnil => absurd (List.append_eq_nil_iff.mp hnil).1 hgot

/-- A call never goes wrong, and it does what the reference reader does with the bytes it has read. -/
theorem vconnStreamRecv_call {s : VconnStream} (hnot : ¬ framing.Begins s.pending) :
    ∃ s' outs got, vconnStreamRecv s = ⟨outs, some s'⟩ ∧ Call s.pending s.stream s' outs got := by
  by_cases hheader : s.pending.length < 8
  · obtain ⟨retval, rx', w', got, hread, h⟩ := vconnStreamRecvUpTo_got (w := s.stream) hheader
    have hhead : recvHeader (s.rxbuf.getD (rfpbufNew 1564)) s.stream = some (retval, rx', w') := by
      rw [recvHeader, ← hread]
      exact if_pos hheader
    have hsize : rx'.data.length = s.pending.length + got.length := by
      rw [h.data, List.length_append]
      rfl
    by_cases hne : retval = 0
    · subst hne
      have hfull : rx'.data.length = 8 := hsize.trans (h.complete.mp rfl)
      have hframe : framing.Begins rx'.data → framing.IsFrame rx'.data := fun hb =>
        ⟨hb.header_le, Nat.le_antisymm hb.length_le (by rw [hfull]; exact hb.header_le_length)⟩
      have hgot : got ≠ [] := by
        intro hnil
        rw [hnil, List.length_nil] at hsize
        omega
      obtain ⟨s', outs, got', hmessage, h'⟩ := recvMessage_call s w' (Nat.le_of_eq hfull.symm) hframe
      exact ⟨s', outs, got ++ got', by rw [vconnStreamRecv_of_success hhead, hmessage], h.then hgot h'⟩
    · have hshort : rx'.data.length < 8 := by
        rw [hsize]
        exact Nat.lt_of_le_of_ne h.length_le (mt h.complete.mpr hne)
      exact ⟨_, _, got, vconnStreamRecv_of_failure hhead hne, h.call hne
        (Framing.not_begins_of_length_lt hshort) fun hm => Nat.not_le_of_lt hshort hm.header_le⟩
  · have hhead : recvHeader (s.rxbuf.getD (rfpbufNew 1564)) s.stream =
        some (0, s.rxbuf.getD (rfpbufNew 1564), s.stream) := if_neg hheader
    rw [vconnStreamRecv_of_success hhead]
    exact recvMessage_call s s.stream (Nat.le_of_not_lt hheader) fun hb => absurd hb hnot

/-! ### Runs of calls -/

/-- Where a receiver is in a stream: the part that it has read, what it has handed over of it, and what it keeps. -/
structure At (bytes : List UInt8) (replies : Nat → Reply) (s : VconnStream) (outs : List Return)
    (consumed : List UInt8) : Prop where
  bytes_eq : bytes = consumed ++ s.stream.bytes
  replies_eq : s.stream.replies = replies
  messages_eq : messages outs = framing.frames consumed
  pending_eq : s.pending = framing.rest consumed

section Run

variable {bytes : List UInt8} {replies : Nat → Reply} {s s' : VconnStream} {outs outs' : List Return}
  {consumed got : List UInt8}

theorem At.not_begins (h : At bytes replies s outs consumed) : ¬ framing.Begins s.pending := by
  rw [h.pending_eq]
  exact Framing.not_begins_rest consumed

theorem At.call (h : At bytes replies s outs consumed) (hc : Call s.pending s.stream s' outs' got) :
    At bytes replies s' (outs ++ outs') (consumed ++ got) where
  bytes_eq := by rw [h.bytes_eq, hc.bytes, List.append_assoc]
  replies_eq := by rw [hc.replies, h.replies_eq]
  messages_eq := by
    rw [messages_append, h.messages_eq, hc.messages_eq, h.pending_eq, Framing.frames_append consumed got]
  pending_eq := by rw [hc.pending_eq, h.pending_eq, Framing.rest_append consumed got]

theorem At.connected (bytes : List UInt8) (replies : Nat → Reply) :
    At bytes replies (connected bytes replies) [] [] where
  bytes_eq := rfl
  replies_eq := rfl
  messages_eq := by
    rw [Framing.frames_of_not_begins (Framing.not_begins_of_length_lt (by decide))]
    rfl
  pending_eq := by
    rw [Framing.rest_of_not_begins (Framing.not_begins_of_length_lt (by decide))]
    rfl

theorem returned_succ (bytes : List UInt8) (replies : Nat → Reply) (n : Nat) {s : VconnStream}
    (h : (receiver.run (connected bytes replies) (List.replicate n ())).result = some s) :
    returned bytes replies (n + 1) = returned bytes replies n ++ (vconnStreamRecv s).outs ∧
      (receiver.run (connected bytes replies) (List.replicate (n + 1) ())).result = (vconnStreamRecv s).result := by
  unfold returned
  rw [List.replicate_succ', Machine.run_snoc, Exec.bind_of_some _ h]
  exact ⟨rfl, rfl⟩

/-- The invariant of a run. -/
theorem at_run (bytes : List UInt8) (replies : Nat → Reply) (n : Nat) :
    ∃ s consumed, (receiver.run (connected bytes replies) (List.replicate n ())).result = some s ∧
      At bytes replies s (returned bytes replies n) consumed := by
  induction n with
  | zero => exact ⟨_, [], rfl, At.connected bytes replies⟩
  | succ n ih =>
      obtain ⟨s, consumed, hrun, h⟩ := ih
      obtain ⟨s', outs', got, hcall, hc⟩ := vconnStreamRecv_call h.not_begins
      obtain ⟨houts, hresult⟩ := returned_succ bytes replies n hrun
      rw [hcall] at houts hresult
      rw [houts]
      exact ⟨s', consumed ++ got, hresult, h.call hc⟩

/-- The state after `n` calls. -/
def After (bytes : List UInt8) (replies : Nat → Reply) (n : Nat) (s : VconnStream) : Prop :=
  (receiver.run (connected bytes replies) (List.replicate n ())).result = some s

theorem After.at {n : Nat} (h : After bytes replies n s) :
    ∃ consumed, At bytes replies s (returned bytes replies n) consumed := by
  obtain ⟨s', consumed, hrun, hat⟩ := at_run bytes replies n
  cases h.symm.trans hrun
  exact ⟨consumed, hat⟩

theorem After.call {n : Nat} (h : After bytes replies n s) :
    ∃ s' outs' got, After bytes replies (n + 1) s' ∧ Call s.pending s.stream s' outs' got ∧
      returned bytes replies (n + 1) = returned bytes replies n ++ outs' := by
  obtain ⟨consumed, hat⟩ := h.at
  obtain ⟨s', outs', got, hcall, hc⟩ := vconnStreamRecv_call hat.not_begins
  obtain ⟨houts, hresult⟩ := returned_succ bytes replies n h
  rw [hcall] at houts hresult
  exact ⟨s', outs', got, hresult, hc, houts⟩

/-- There is nothing more to read, or nothing more is read. -/
def Done (s : VconnStream) : Prop := s.stream.bytes = [] ∨ framing.Malformed s.pending

/-- The next call: it gets something, unless the read that it makes has nothing to give. -/
theorem After.next {n : Nat} (h : After bytes replies n s) :
    Done s ∨ ∃ t, After bytes replies (n + 1) t ∧ (t.stream.bytes.length < s.stream.bytes.length ∨
      ¬ (replies s.stream.reads).Delivers ∧ t.stream.bytes = s.stream.bytes ∧ t.stream.reads = s.stream.reads + 1) := by
  obtain ⟨consumed, hat⟩ := h.at
  obtain ⟨t, outs', got, ht, hc, -⟩ := h.call
  by_cases hgot : got = []
  · rcases hc.progress hgot with hb | hm | hb | ⟨hno, hreads⟩
    · exact .inl (.inl hb)
    · exact .inl (.inr hm)
    · exact absurd hb hat.not_begins
    · rw [Stream.reply, hat.replies_eq] at hno
      have hbytes : t.stream.bytes = s.stream.bytes := by
        rw [hc.bytes, hgot, List.nil_append]
      exact .inr ⟨t, ht, .inr ⟨hno, hbytes, hreads⟩⟩
  · have hpos := List.length_pos_iff.mpr hgot
    have hlt : t.stream.bytes.length < s.stream.bytes.length := by
      rw [hc.bytes, List.length_append]
      omega
    exact .inr ⟨t, ht, .inl hlt⟩

/-- Calls that wait for bytes get some. -/
theorem After.wait {n d : Nat} (h : After bytes replies n s) (hd : (replies (s.stream.reads + d)).Delivers) :
    ∃ m t, After bytes replies m t ∧ (Done t ∨ t.stream.bytes.length < s.stream.bytes.length) := by
  -- by induction on the number of reads that may have nothing to give
  induction d generalizing n s with
  | zero =>
      obtain hdone | ⟨t, ht, hlt | ⟨hno, -, -⟩⟩ := h.next
      · exact ⟨n, s, h, .inl hdone⟩
      · exact ⟨n + 1, t, ht, .inr hlt⟩
      · exact absurd hd hno
  | succ d ih =>
      obtain hdone | ⟨t, ht, hlt | ⟨-, hbytes, hreads⟩⟩ := h.next
      · exact ⟨n, s, h, .inl hdone⟩
      · exact ⟨n + 1, t, ht, .inr hlt⟩
      · rw [← hbytes]
        apply ih ht
        rw [hreads, Nat.add_assoc, Nat.add_comm 1 d]
        exact hd

/-- As long as reads return something again and again, all is read that will ever be. -/
theorem After.done {n : Nat} (h : After bytes replies n s) (hfair : ∀ i, ∃ j ≥ i, (replies j).Delivers) :
    ∃ m t, After bytes replies m t ∧ Done t := by
  induction hk : s.stream.bytes.length using Nat.strongRecOn generalizing n s with
  | ind k ih =>
      obtain ⟨j, hj, hd⟩ := hfair s.stream.reads
      obtain ⟨d, rfl⟩ := Nat.exists_eq_add_of_le hj
      obtain ⟨m, t, ht, hdone | hlt⟩ := h.wait hd
      · exact ⟨m, t, ht, hdone⟩
      · exact ih _ (hk ▸ hlt) ht rfl

theorem At.messages_initial (h : At bytes replies s outs consumed) : messages outs <+: framing.frames bytes := by
  rw [h.messages_eq, h.bytes_eq, Framing.frames_append]
  exact List.prefix_append _ _

theorem At.of_malformed (h : At bytes replies s outs consumed) (hm : framing.Malformed s.pending) :
    messages outs = framing.frames bytes ∧ framing.Malformed (framing.rest bytes) := by
  have hmore := hm.append s.stream.bytes
  rw [h.bytes_eq, Framing.frames_append, Framing.rest_append, ← h.pending_eq,
    Framing.frames_of_not_begins hmore.not_begins, Framing.rest_of_not_begins hmore.not_begins, List.append_nil]
  exact ⟨h.messages_eq, hmore⟩

theorem At.messages_of_done (h : At bytes replies s outs consumed) (hd : Done s) :
    messages outs = framing.frames bytes := by
  rcases hd with hnil | hm
  · rw [h.messages_eq, h.bytes_eq, hnil, List.append_nil]
  · exact (h.of_malformed hm).1

theorem returned_mono {m n : Nat} (h : m ≤ n) : returned bytes replies m <+: returned bytes replies n := by
  induction h with
  | refl => exact List.prefix_rfl
  | step _ ih =>
      obtain ⟨s, -, hrun, -⟩ := at_run bytes replies _
      rw [(returned_succ bytes replies _ hrun).1]
      exact ih.trans (List.prefix_append _ _)

/-- Once all messages are there, they stay all. -/
theorem messages_returned_of_le {m n : Nat} (h : m ≤ n)
    (hm : messages (returned bytes replies m) = framing.frames bytes) :
    messages (returned bytes replies n) = framing.frames bytes := by
  obtain ⟨s, consumed, -, hat⟩ := at_run bytes replies n
  apply hat.messages_initial.eq_of_length_le
  rw [← hm]
  exact ((returned_mono h).filterMap _).length_le

/-- Nothing is reported on a connection that stays up but that the caller has to wait, or a header that is too short
and comes after the last message. -/
theorem failure_returned (halive : ∀ i, (replies i).Alive) {n : Nat} {retval : Int}
    (hf : .failure retval ∈ returned bytes replies n) :
    retval = eagain ∨ retval = eproto ∧ framing.Malformed (framing.rest bytes) ∧
      messages (returned bytes replies n) = framing.frames bytes := by
  induction n with
  | zero => cases hf
  | succ n ih =>
      obtain ⟨s, consumed, hrun, hat⟩ := at_run bytes replies n
      obtain ⟨t, outs', got, ht, hc, houts⟩ := After.call hrun
      obtain ⟨consumed', hat'⟩ := ht.at
      rw [houts] at hf
      rcases List.mem_append.mp hf with hold | hnew
      · rcases ih hold with h | ⟨h, hm, hall⟩
        · exact .inl h
        · exact .inr ⟨h, hm, messages_returned_of_le (Nat.le_succ n) hall⟩
      · rcases hc.alive (hat.replies_eq ▸ halive) retval hnew with h | hm
        · exact .inl h
        · rw [hc.malformed hm] at hnew
          cases List.mem_singleton.mp hnew
          obtain ⟨hall, hrest⟩ := hat'.of_malformed hm
          exact .inr ⟨rfl, hrest, hall⟩

/-- A header that is too short stays in the buffer, and it is reported by every call. -/
theorem After.malformed {m n : Nat} (h : After bytes replies m s) (hm : framing.Malformed s.pending) (hn : m ≤ n) :
    ∃ t, After bytes replies n t ∧ framing.Malformed t.pending := by
  induction hn with
  | refl => exact ⟨s, h, hm⟩
  | step _ ih =>
      obtain ⟨t, ht, hmt⟩ := ih
      obtain ⟨t', outs', got, ht', hc, -⟩ := ht.call
      refine ⟨t', ht', ?_⟩
      have hmore := hmt.append got
      rw [hc.pending_eq, Framing.rest_of_not_begins hmore.not_begins]
      exact hmore

end Run

/-- The receiver delivers exactly what was sent, however the stream is cut into reads: each message once, in order
and as it was. A header with a length below its own size is reported, after the messages before it, and nothing is
delivered of it. -/
theorem vconnStreamRecv_delivers {ms : List (List UInt8)} {x : List UInt8} {replies : Nat → Reply}
    (hms : ∀ m ∈ ms, framing.IsFrame m) (hx : x = [] ∨ framing.Malformed x) (halive : ∀ i, (replies i).Alive)
    (hfair : ∀ i, ∃ j ≥ i, (replies j).Delivers) :
    (∀ n, messages (returned (ms.flatten ++ x) replies n) <+: ms) ∧
    (∃ N, ∀ n ≥ N, messages (returned (ms.flatten ++ x) replies n) = ms) ∧
    (∀ n retval, .failure retval ∈ returned (ms.flatten ++ x) replies n → retval = eagain ∨
      retval = eproto ∧ framing.Malformed x ∧ messages (returned (ms.flatten ++ x) replies n) = ms) ∧
    (framing.Malformed x → ∃ N, ∀ n ≥ N, returned (ms.flatten ++ x) replies (n + 1) =
      returned (ms.flatten ++ x) replies n ++ [.failure eproto]) := by
  have hnot : ¬ framing.Begins x := by
    rcases hx with rfl | hm
    · exact Framing.not_begins_of_length_lt (by decide)
    · exact hm.not_begins
  obtain ⟨hframes, hrest⟩ := Framing.frames_flatten hms hnot
  generalize ms.flatten ++ x = bytes at hframes hrest ⊢
  subst hframes hrest
  obtain ⟨N, s, hN, hdone⟩ := After.done (show After bytes replies 0 _ from rfl) hfair
  obtain ⟨consumed, hat⟩ := hN.at
  refine ⟨?_, ⟨N, ?_⟩, ?_, ?_⟩
  · intro n
    obtain ⟨t, consumed', -, hat'⟩ := at_run bytes replies n
    exact hat'.messages_initial
  · intro n hn
    exact messages_returned_of_le hn (hat.messages_of_done hdone)
  · intro n retval hf
    exact failure_returned halive hf
  · intro hm
    have hpending : framing.Malformed s.pending := by
      rcases hdone with hnil | h
      · rw [hat.pending_eq]
        rwa [hat.bytes_eq, hnil, List.append_nil] at hm
      · exact h
    refine ⟨N, fun n hn => ?_⟩
    obtain ⟨t, ht, hmt⟩ := hN.malformed hpending (Nat.le_succ_of_le hn)
    obtain ⟨s', -, hrun, -⟩ := at_run bytes replies n
    obtain ⟨t', outs', got, ht', hc, houts⟩ := After.call hrun
    cases ht.symm.trans ht'
    rw [houts, hc.malformed hmt]

/-- Two messages and a header that is too short, with reads of one byte that find nothing every other time. -/
theorem vconnStreamRecv_delivers_bytewise :
    let ms : List (List UInt8) := [[1, 0, 0, 8, 0, 0, 0, 1], [1, 23, 0, 10, 0, 0, 0, 2, 7, 9]]
    let x : List UInt8 := [1, 0, 0, 7, 0, 0, 0, 3]
    let replies : Nat → Reply := fun i => if i % 2 = 0 then .error 11 else .bytes 0
    (∃ N, ∀ n ≥ N, messages (returned (ms.flatten ++ x) replies n) = ms) ∧
      ∃ N, ∀ n ≥ N, returned (ms.flatten ++ x) replies (n + 1) =
        returned (ms.flatten ++ x) replies n ++ [.failure eproto] := by
  intro ms x replies
  have hms : ∀ m ∈ ms, framing.IsFrame m := by
    intro m hm
    rcases List.mem_cons.mp hm with rfl | hm
    · exact ⟨by decide, by decide⟩
    · cases List.mem_singleton.mp hm
      exact ⟨by decide, by decide⟩
  have hx : framing.Malformed x := ⟨by decide, by decide⟩
  have halive : ∀ i, (replies i).Alive := by
    intro i
    simp only [replies]
    split <;> trivial
  have hfair : ∀ i, ∃ j ≥ i, (replies j).Delivers := by
    intro i
    refine ⟨2 * i + 1, by omega, ?_⟩
    have hodd : ¬ (2 * i + 1) % 2 = 0 := by omega
    simp only [replies, if_neg hodd]
    trivial
  obtain ⟨-, hall, -, hreport⟩ := vconnStreamRecv_delivers hms (.inr hx) halive hfair
  exact ⟨hall, hreport hx⟩

end Harry.Vconn
