import Harry.BaseExec
import Harry.BaseHost
import Harry.RfpMessage

/-! The way of an OSPFv3 packet through the punter (`ext_client_ospf6.c`), from the raw socket to the frame that is
forwarded to the datapath. How many bytes are copied is what the packet's own header says; how many were received is
looked at in another function, which prints a line and goes on. -/

namespace Harry.Punter

open Harry.Base Harry.Base.Exec Harry.Rfp

/-- The static receive buffer, `recvbuf` with `iobuflen`, which is an `int`. -/
structure Iobuf where
  recvbuf : List UInt8
  length_lt : recvbuf.length < 2 ^ 31

namespace Iobuf

def iobuflen (b : Iobuf) : Nat := b.recvbuf.length

/-- The buffer after `memset` and `recvmsg`: the kernel cuts a datagram that is too long, and writes nothing when it
returns an error. -/
def received (b : Iobuf) (datagram : Option (List UInt8)) : Iobuf where
  recvbuf := (datagram.getD []).take b.iobuflen ++ List.replicate (b.iobuflen - (datagram.getD []).length) 0
  length_lt := by
    have hlt := b.length_lt
    simp only [iobuflen, List.length_append, List.length_take, List.length_replicate]
    omega

/-- `ext_client_ospf6_iobuf_cpy_mem`. -/
def cpyMem (b : Iobuf) (size : Nat) : Exec Rfpbuf (List UInt8) := deref (bytesAt b.recvbuf 0 size)

/-- `ext_client_ospf6_iobuf_cpy_mem_from_offset`. -/
def cpyMemFromOffset (b : Iobuf) (offset size : Nat) : Exec Rfpbuf (List UInt8) := deref (bytesAt b.recvbuf offset size)

end Iobuf

/-- `ntohs(oh->length)`. -/
def ospf6Length (oh : List UInt8) : Nat := (oh.getD 2 0).toNat * 2 ^ 8 + (oh.getD 3 0).toNat

/-- `ospf6_len - sizeof(struct ospf6_header)`, an `unsigned int`. -/
def ospf6BodyLen (ospf6Len : Nat) : Nat := (UInt32.ofNat ospf6Len - 16).toNat

/-- `ext_client_ospf6_recvmsg`. The length that `recvmsg` returned is compared with the buffer and with a header for
what is printed only; the type of the packet is read for the same end. -/
def extClientOspf6Recvmsg (b : Iobuf) (datagram : Option (List UInt8)) : Exec Rfpbuf Iobuf := do
  let b := b.received datagram
  let _type ← deref b.recvbuf[1]?
  pure b

/-- The message in `ibuf` with its header, its length set at the end to `sizeof(struct rfp_header) + ospf6_len`. -/
def ibuf (xid : UInt32) (ospf6Len : Nat) (oh body : List UInt8) : Rfpbuf where
  data := [1, RfpType.forwardOspf6.code] ++ htons (8 + ospf6Len) ++ htonl xid ++ (oh ++ body)
  header_le := by simp [htons, htonl]

/-- `ext_client_ospf6_recv`, with the transaction id that `routeflow_alloc` takes. -/
def extClientOspf6Recv (b : Iobuf) (xid : UInt32) (datagram : Option (List UInt8)) : Exec Rfpbuf Iobuf := do
  let b ← extClientOspf6Recvmsg b datagram
  let oh ← b.cpyMem 16
  let body ← b.cpyMemFromOffset 16 (ospf6BodyLen (ospf6Length oh))
  emit (ibuf xid (ospf6Length oh) oh body)
  pure b

/-- A datagram that may be forwarded: its header is there, all it announces was received, and it fits the buffer. -/
structure Admitted (b : Iobuf) (datagram : List UInt8) : Prop where
  header : 16 ≤ ospf6Length datagram
  received : ospf6Length datagram ≤ datagram.length
  room : datagram.length ≤ b.iobuflen

/-- A call that stays inside the buffer and forwards nothing but what an admitted datagram announces. -/
def AdmitsOnly (b : Iobuf) (xid : UInt32) (datagram : Option (List UInt8)) : Prop :=
  (extClientOspf6Recv b xid datagram).result.isSome = true ∧
    ∀ frame ∈ (extClientOspf6Recv b xid datagram).outs,
      ∃ d, datagram = some d ∧ Admitted b d ∧ frame.data.drop 8 = d.take (ospf6Length d)

section Recv

variable {b : Iobuf} {xid : UInt32}

/-- A call that comes to its end has forwarded a frame, whatever it received. -/
theorem exists_mem_outs_of_isSome {datagram : Option (List UInt8)}
    (h : (extClientOspf6Recv b xid datagram).result.isSome = true) :
    ∃ frame, frame ∈ (extClientOspf6Recv b xid datagram).outs := by
  obtain ⟨b', hb'⟩ := Option.isSome_iff_exists.mp h
  unfold extClientOspf6Recv at hb' ⊢
  obtain ⟨b₁, hrecvmsg, hrest⟩ := result_bind_eq_some.mp hb'
  obtain ⟨oh, hoh, hrest⟩ := result_bind_eq_some.mp hrest
  obtain ⟨body, hbody, -⟩ := result_bind_eq_some.mp hrest
  refine ⟨ibuf xid (ospf6Length oh) oh body, ?_⟩
  refine mem_outs_bind.mpr (Or.inr ⟨b₁, hrecvmsg, ?_⟩)
  refine mem_outs_bind.mpr (Or.inr ⟨oh, hoh, ?_⟩)
  refine mem_outs_bind.mpr (Or.inr ⟨body, hbody, ?_⟩)
  rw [outs_emit_bind]
  exact List.mem_cons_self

theorem admitted_of_admitsOnly {datagram : Option (List UInt8)} (h : AdmitsOnly b xid datagram) :
    ∃ d, datagram = some d ∧ Admitted b d := by
  obtain ⟨frame, hframe⟩ := exists_mem_outs_of_isSome h.1
  obtain ⟨d, hd, hadmitted, -⟩ := h.2 frame hframe
  exact ⟨d, hd, hadmitted⟩

variable {d : List UInt8}

/-- A datagram that fits lies at the start of the buffer. -/
theorem Admitted.bytesAt_received (h : Admitted b d) {off n : Nat} (hin : off + n ≤ d.length) :
    bytesAt (b.received (some d)).recvbuf off n = some ((d.drop off).take n) := by
  have hbuf : (b.received (some d)).recvbuf = d ++ List.replicate (b.iobuflen - d.length) 0 := by
    simp only [Iobuf.received, Option.getD_some, List.take_of_length_le h.room]
  have hlen : off + n ≤ (d ++ List.replicate (b.iobuflen - d.length) (0 : UInt8)).length := by
    rw [List.length_append]
    omega
  have hoff : off ≤ d.length := by omega
  have hn : n ≤ (d.drop off).length := by
    rw [List.length_drop]
    omega
  rw [hbuf, bytesAt, if_pos hlen, List.drop_append_of_le_length hoff, List.take_append_of_le_length hn]

theorem ospf6Length_take (d : List UInt8) : ospf6Length (d.take 16) = ospf6Length d := by
  simp [ospf6Length, List.getD_eq_getElem?_getD]

/-- The body of a packet with a header, in 32 bits. -/
theorem ospf6BodyLen_eq {len : Nat} (hge : 16 ≤ len) (hlt : len < 2 ^ 16) : ospf6BodyLen len = len - 16 := by
  have hlen : (UInt32.ofNat len).toNat = len := by
    rw [UInt32.toNat_ofNat', Nat.mod_eq_of_lt (by omega)]
  rw [ospf6BodyLen, UInt32.toNat_sub, hlen]
  simp only [UInt32.reduceToNat]
  omega

theorem ospf6Length_lt (oh : List UInt8) : ospf6Length oh < 2 ^ 16 := by
  have h2 := (oh.getD 2 0).toNat_lt
  have h3 := (oh.getD 3 0).toNat_lt
  rw [ospf6Length]
  omega

/-- An admitted datagram is forwarded, as one frame of the bytes it announces. -/
theorem Admitted.recv (h : Admitted b d) : extClientOspf6Recv b xid (some d) =
    ⟨[Rfpbuf.routeflowAllocXid .forwardOspf6 xid (d.take (ospf6Length d))], some (b.received (some d))⟩ := by
  have hheader : 0 + 16 ≤ d.length := by
    have := h.header
    have := h.received
    omega
  have hbody : 16 + (ospf6Length d - 16) ≤ d.length := by
    rw [Nat.add_sub_cancel' h.header]
    exact h.received
  obtain ⟨type, htype⟩ : ∃ type, (b.received (some d)).recvbuf[1]? = some type := by
    have hlen : 1 < (b.received (some d)).recvbuf.length := by
      have := h.room
      simp only [Iobuf.received, Option.getD_some, List.length_append, List.length_take, List.length_replicate]
      omega
    exact ⟨_, List.getElem?_eq_getElem hlen⟩
  have hframe : d.take 16 ++ (d.drop 16).take (ospf6Length d - 16) = d.take (ospf6Length d) := by
    rw [← List.take_add, Nat.add_sub_cancel' h.header]
  have hlength : (d.take (ospf6Length d)).length = ospf6Length d := List.length_take_of_le h.received
  have hibuf : ibuf xid (ospf6Length d) (d.take 16) ((d.drop 16).take (ospf6Length d - 16)) =
      Rfpbuf.routeflowAllocXid .forwardOspf6 xid (d.take (ospf6Length d)) := by
    simp only [ibuf, Rfpbuf.routeflowAllocXid, hframe, hlength]
  simp only [extClientOspf6Recv, extClientOspf6Recvmsg, htype, deref_some_bind, Iobuf.cpyMem, Iobuf.cpyMemFromOffset,
    pure_bind, h.bytesAt_received hheader, List.drop_zero, ospf6Length_take, ospf6BodyLen_eq h.header (ospf6Length_lt d),
    h.bytesAt_received hbody, hibuf]
  rfl

/-- The punter is only right about the datagrams that it may forward: it admits all the others as well, if it does not
read outside its buffer before. -/
theorem admitsOnly_iff (b : Iobuf) (xid : UInt32) (datagram : Option (List UInt8)) :
    AdmitsOnly b xid datagram ↔ ∃ d, datagram = some d ∧ Admitted b d := by
  constructor
  · exact admitted_of_admitsOnly
  · rintro ⟨d, rfl, h⟩
    refine ⟨?_, fun frame hframe => ⟨d, rfl, h, ?_⟩⟩
    · rw [h.recv]
      rfl
    · rw [h.recv] at hframe
      rw [List.mem_singleton.mp hframe]
      rfl

/-- A Hello of 16 bytes that announces 40, and a receive error. -/
theorem not_admitsOnly_lying : ¬ AdmitsOnly ⟨List.replicate 64 0, by decide⟩ 7
      (some [3, 1, 0, 40, 1, 1, 1, 1, 0, 0, 0, 0, 0, 0, 0, 0]) ∧
    ¬ AdmitsOnly ⟨List.replicate 64 0, by decide⟩ 7 none := by
  refine ⟨fun h => ?_, fun h => ?_⟩
  · obtain ⟨d, hd, hadmitted⟩ := admitted_of_admitsOnly h
    cases hd
    exact absurd hadmitted.received (by decide)
  · obtain ⟨d, hd, -⟩ := admitted_of_admitsOnly h
    cases hd

end Recv

end Harry.Punter
