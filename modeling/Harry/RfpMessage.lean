import Mathlib.Algebra.Group.Nat.Defs
import Mathlib.Data.List.Basic

/-! RouteFlow messages as they travel between controller, datapath and siblings: the message types
of `routeflow-common.h`, the eight-byte header (version, type, length, transaction id, all in
network order) and the byte-wise comparison `rfpbuf_equal` the voter relies on. -/

namespace Harry.Rfp

/-- `enum rfp_type`, in the order of its codes. -/
inductive RfpType where
  | hello | ack | leaderElect | replicaEx | error | echoRequest | echoReply | vendor
  | featuresRequest | featuresReply | addressesRequest | addressesReply
  | getConfigRequest | getConfigReply | setConfig | statsRoutesRequest | statsRoutesReply
  | redistributeRequest | ipv4RouteAdd | ipv6RouteSetRequest | ifAddressReq
  | ipv4AddressAdd | ipv6AddressAdd | forwardOspf6 | forwardBgp | redistributeLeaderElect
  deriving DecidableEq, Repr

namespace RfpType

def all : List RfpType :=
  [hello, ack, leaderElect, replicaEx, error, echoRequest, echoReply, vendor,
    featuresRequest, featuresReply, addressesRequest, addressesReply,
    getConfigRequest, getConfigReply, setConfig, statsRoutesRequest, statsRoutesReply,
    redistributeRequest, ipv4RouteAdd, ipv6RouteSetRequest, ifAddressReq,
    ipv4AddressAdd, ipv6AddressAdd, forwardOspf6, forwardBgp, redistributeLeaderElect]

/-- The byte that stands for a type on the wire. -/
def code (t : RfpType) : UInt8 := UInt8.ofNat (all.idxOf t)

/-- The type a byte stands for; the codes above the last one belong to none. -/
def ofCode (b : UInt8) : Option RfpType := all[b.toNat]?

theorem ofCode_code (t : RfpType) : ofCode t.code = some t := by
  cases t <;> decide

end RfpType

/-- A 32-bit word from its bytes in network order (`ntohl`). -/
def ntohl (b0 b1 b2 b3 : UInt8) : UInt32 :=
  UInt32.ofNat (b0.toNat * 2 ^ 24 + b1.toNat * 2 ^ 16 + b2.toNat * 2 ^ 8 + b3.toNat)

/-- The bytes of a 32-bit word in network order (`htonl`). -/
def htonl (x : UInt32) : List UInt8 :=
  [UInt8.ofNat (x.toNat / 2 ^ 24), UInt8.ofNat (x.toNat / 2 ^ 16), UInt8.ofNat (x.toNat / 2 ^ 8),
    UInt8.ofNat x.toNat]

/-- The bytes of a 16-bit word in network order (`htons`). -/
def htons (n : Nat) : List UInt8 := [UInt8.ofNat (n / 2 ^ 8), UInt8.ofNat n]

theorem ntohl_htonl (x : UInt32) :
    ntohl (UInt8.ofNat (x.toNat / 2 ^ 24)) (UInt8.ofNat (x.toNat / 2 ^ 16))
      (UInt8.ofNat (x.toNat / 2 ^ 8)) (UInt8.ofNat x.toNat) = x := by
  have hx : x.toNat < 2 ^ 32 := x.toNat_lt
  apply UInt32.toNat_inj.mp
  simp only [ntohl, UInt32.toNat_ofNat', UInt8.toNat_ofNat']
  omega

/-- The bytes in use of a `struct rfpbuf` that holds a message. `vconn_stream_recv` hands a buffer
over only after a whole header has arrived. -/
structure Rfpbuf where
  data : List UInt8
  header_le : 8 ≤ data.length
  deriving DecidableEq

namespace Rfpbuf

def size (m : Rfpbuf) : Nat := m.data.length

private def headerByte (m : Rfpbuf) (i : Fin 8) : UInt8 :=
  m.data.get ⟨i, Nat.lt_of_lt_of_le i.isLt m.header_le⟩

/-- `rh->type`. -/
def type (m : Rfpbuf) : Option RfpType := RfpType.ofCode (m.headerByte 1)

/-- `ntohl(rh->xid)`. -/
def xid (m : Rfpbuf) : UInt32 :=
  ntohl (m.headerByte 4) (m.headerByte 5) (m.headerByte 6) (m.headerByte 7)

/-- `rfpbuf_equal`. -/
def rfpbufEqual (a b : Rfpbuf) : Bool :=
  a.size == b.size && a.data.take a.size == b.data.take a.size

theorem rfpbufEqual_iff {a b : Rfpbuf} : rfpbufEqual a b = true ↔ a = b := by
  cases a with
  | mk d hd =>
    cases b with
    | mk e he =>
      simp only [rfpbufEqual, size, Bool.and_eq_true, beq_iff_eq, List.take_length, mk.injEq]
      constructor
      · rintro ⟨hlen, h⟩
        rwa [hlen, List.take_length] at h
      · intro h
        rw [h, List.take_length]
        exact ⟨rfl, rfl⟩

/-- A message as `routeflow_alloc_xid` and `rfpmsg_update_length` lay it out: version 1, the type,
the length of the whole message, the transaction id, the body. -/
def routeflowAllocXid (t : RfpType) (xid : UInt32) (body : List UInt8) : Rfpbuf where
  data := [1, t.code] ++ htons (8 + body.length) ++ htonl xid ++ body
  header_le := by simp [htons, htonl]

@[simp] theorem type_routeflowAllocXid (t : RfpType) (xid : UInt32) (body : List UInt8) :
    (routeflowAllocXid t xid body).type = some t :=
  RfpType.ofCode_code t

@[simp] theorem xid_routeflowAllocXid (t : RfpType) (xid : UInt32) (body : List UInt8) :
    (routeflowAllocXid t xid body).xid = xid :=
  ntohl_htonl xid

/-- `rh->xid = htonl(xid)`. -/
def setXid (m : Rfpbuf) (xid : UInt32) : Rfpbuf where
  data := m.data.take 4 ++ htonl xid ++ m.data.drop 8
  header_le := by
    have := m.header_le
    simp only [htonl, List.length_append, List.length_take, List.length_cons, List.length_nil]
    omega

@[simp] theorem xid_setXid (m : Rfpbuf) (xid : UInt32) : (m.setXid xid).xid = xid := by
  obtain ⟨data, h⟩ := m
  match data, h with
  | _ :: _ :: _ :: _ :: _, _ => exact ntohl_htonl xid

end Rfpbuf

end Harry.Rfp
