import Mathlib.Data.List.Forall2
import Mathlib.Logic.Function.Basic
import Harry.BaseAligned
import Harry.BaseExec
import Harry.BaseHost

/-! Routes on their way to the kernel and from it (`netlink.c`): the requests of `netlink_route_set` and
`netlink_route_unset`, and `netlink_parse_info` with `netlink_routing_table`, which hands the routes of a dump or of a
change to the callbacks. A message is a header and attributes, in whatever order and among whatever others the kernel
has put them. -/

namespace Harry.Netlink

open Harry.Base

/-- `struct rtattr`, with the macros `RTA_ALIGN`, `RTA_OK` and `RTA_NEXT`. -/
def rtattr : Aligned UInt8 where
  header := 4
  unit := 4
  lengthOf rta := ofLe (rta.take 2)
  unit_pos := by decide
  header_pos := by decide
  lengthOf_append r x h := by rw [List.take_append_of_le_length (by omega)]

/-- `struct nlmsghdr`, with the macros `NLMSG_ALIGN`, `NLMSG_OK` and `NLMSG_NEXT`. -/
def nlmsghdr : Aligned UInt8 where
  header := 16
  unit := 4
  lengthOf h := ofLe (h.take 4)
  unit_pos := by decide
  header_pos := by decide
  lengthOf_append r x h := by rw [List.take_append_of_le_length (by omega)]

def nlmsgError : Nat := 2
def nlmsgDone : Nat := 3
def rtmNewroute : Nat := 24
def rtmDelroute : Nat := 25

def rtaDst : Nat := 1
def rtaOif : Nat := 4
def rtaGateway : Nat := 5
def rtaPriority : Nat := 6
def rtaPrefsrc : Nat := 7

/-- `struct rtmsg`. -/
structure Rtmsg where
  family : UInt8
  dstLen : UInt8
  srcLen : UInt8
  tos : UInt8
  table : UInt8
  protocol : UInt8
  scope : UInt8
  type : UInt8
  flags : UInt32

def Rtmsg.bytes (r : Rtmsg) : List UInt8 :=
  [r.family, r.dstLen, r.srcLen, r.tos, r.table, r.protocol, r.scope, r.type] ++ le 4 r.flags.toNat

/-- A `struct nlmsghdr` without its length, and what follows it. -/
structure Nlmsg where
  type : Nat
  flags : UInt16
  seq : UInt32
  pid : UInt32
  payload : List UInt8

/-- The message in memory, its length with it. -/
def Nlmsg.bytes (n : Nlmsg) : List UInt8 :=
  le 4 (16 + n.payload.length) ++ le 2 n.type ++ le 2 n.flags.toNat ++ le 4 n.seq.toNat ++ le 4 n.pid.toNat ++ n.payload

/-- A `struct rtattr` and its data. -/
def rtattrBytes (type : Nat) (data : List UInt8) : List UInt8 := le 2 (4 + data.length) ++ le 2 type ++ data

/-- `addattr_l` and `addattr32`; the buffer is zero behind the message. -/
def addattrL (n : Nlmsg) (maxlen type : Nat) (data : List UInt8) : Nlmsg :=
  if maxlen < nlmsghdr.align (16 + n.payload.length) + (4 + data.length) then n
  else { n with payload := nlmsghdr.pad 0 n.payload ++ rtattrBytes type data }

/-- `sizeof(req)`. -/
def sizeofReq : Nat := 16 + 12 + 1024

/-- The header of the requests for a route to `prefixlen` bits. -/
def requestFor (type : Nat) (prefixlen : UInt8) : Nlmsg where
  type := type
  flags := 0x401
  seq := 0
  pid := 0
  payload := (Rtmsg.mk 10 prefixlen 0 0 254 11 0 1 0).bytes

/-- `netlink_route_set`. -/
def netlinkRouteSet (p : List UInt8) (prefixlen : UInt8) (ifindex : UInt32) (gateway : List UInt8) : Nlmsg :=
  addattrL (addattrL (addattrL (requestFor rtmNewroute prefixlen) sizeofReq rtaDst p) sizeofReq rtaOif
    (le 4 ifindex.toNat)) sizeofReq rtaGateway gateway

/-- `netlink_route_unset`. -/
def netlinkRouteUnset (p : List UInt8) (prefixlen : UInt8) (ifindex : UInt32) : Nlmsg :=
  addattrL (addattrL (requestFor rtmDelroute prefixlen) sizeofReq rtaDst p) sizeofReq rtaOif (le 4 ifindex.toNat)

inductive Family where
  | inet | inet6
  deriving DecidableEq

/-- `AF_INET` and `AF_INET6`. -/
def Family.ofByte (b : UInt8) : Option Family :=
  if b = 2 then some .inet else if b = 10 then some .inet6 else none

/-- The bytes of an address. -/
def Family.size : Family → Nat
  | .inet => 4
  | .inet6 => 16

/-- `struct route_ipv4` and `struct route_ipv6`, less the fields that are the same for all routes. A pointer into the
message is what it points to. -/
structure Route where
  family : Family
  addr : List UInt8
  prefixlen : UInt8
  gate : Option (List UInt8)
  src : Option (List UInt8)
  ifindex : Nat
  vrfId : UInt8
  metric : Nat

/-- A callback and the route that it is given. -/
inductive Call where
  | ribAdd (route : Route)
  | ribRemove (route : Route)

/-- Which callbacks there are. -/
structure RoutingTableInfo where
  ribAdd : Family → Bool
  ribRemove : Family → Bool

/-- `h->nlmsg_type` and `h->nlmsg_flags`. -/
def nlmsgType (h : List UInt8) : Nat := ofLe ((h.drop 4).take 2)
def nlmsgFlags (h : List UInt8) : Nat := ofLe ((h.drop 6).take 2)

/-- `NLMSG_DATA`. -/
def nlmsgData (h : List UInt8) : List UInt8 := h.drop 16

/-- `rta->rta_type`. -/
def rtaType (rta : List UInt8) : Nat := ofLe ((rta.drop 2).take 2)

/-- `RTA_DATA`. -/
def rtaData (rta : List UInt8) : List UInt8 := rta.drop 4

/-- The pointers of `tb`, each as what it points to. -/
abbrev Attributes := Nat → Option (List UInt8)

/-- One turn of the loop of `netlink_parse_rtattr`. -/
def enter (max : Nat) (tb : Attributes) (rta : List UInt8) : Attributes :=
  if rtaType rta ≤ max then Function.update tb (rtaType rta) (some (rtaData rta)) else tb

/-- `netlink_parse_rtattr`, from a `tb` of null pointers. -/
def netlinkParseRtattr (max : Nat) (bytes : List UInt8) : Attributes :=
  (rtattr.walk bytes.length bytes).foldl (enter max) fun _ => none

/-- An `int` in the data of an attribute, 0 without the attribute. -/
def intIn (data : Option (List UInt8)) : Exec Call Nat :=
  match data with
  | none => pure 0
  | some data => Exec.deref (numberIn data 0 4)

/-- The end of `netlink_routing_table`: the call, where there is a callback. -/
def callback (info : RoutingTableInfo) (remove : Bool) (family : Family) (rtmDstLen table : UInt8) (tb : Attributes)
    (index metric : Nat) : Exec Call Int := do
  if (if remove then info.ribRemove family else info.ribAdd family) then
    let addr ← Exec.deref (bytesAt ((tb rtaDst).getD (List.replicate 16 0)) 0 family.size)
    let route : Route :=
      { family, addr
        prefixlen := rtmDstLen
        gate := tb rtaGateway
        src := if family = .inet then tb rtaPrefsrc else none
        ifindex := index
        vrfId := table
        metric }
    Exec.emit (if remove then .ribRemove route else .ribAdd route)
  return 0

/-- `netlink_routing_table` with `RTA_MAX`, for the message that begins `h`. -/
def netlinkRoutingTable (rtaMax : Nat) (info : RoutingTableInfo) (h : List UInt8) : Exec Call Int := do
  let rtm := nlmsgData h
  if nlmsgType h ≠ rtmNewroute ∧ nlmsgType h ≠ rtmDelroute then return 0
  let rtmType ← Exec.deref rtm[7]?
  if rtmType = 7 then return 0
  let table ← Exec.deref rtm[4]?
  if nlmsghdr.lengthOf h < 28 then return -1
  let tb := netlinkParseRtattr rtaMax ((h.take (nlmsghdr.lengthOf h)).drop 28)
  let rtmFlags ← Exec.deref (numberIn rtm 8 4)
  if rtmFlags / 0x200 % 2 = 1 then return 0
  let rtmProtocol ← Exec.deref rtm[5]?
  if rtmProtocol = 1 then return 0
  let rtmSrcLen ← Exec.deref rtm[2]?
  if rtmSrcLen ≠ 0 then return 0
  let index ← intIn (tb rtaOif)
  let metric ← intIn (tb rtaPriority)
  let rtmFamily ← Exec.deref rtm[0]?
  let rtmDstLen ← Exec.deref rtm[1]?
  match Family.ofByte rtmFamily with
  | none => return 0
  | some family => callback info (nlmsgType h = rtmDelroute) family rtmDstLen table tb index metric

/-- `sizeof buf` of `netlink_parse_info`. -/
def sizeofBuf : Nat := 4096

/-- How `recvmsg` returns: with the next datagram of the socket, or without one. -/
inductive Recvmsg where
  | datagram (bytes : List UInt8)
  | interrupted
  | wouldBlock
  | closed

/-- What the loop over the messages of a datagram comes to: a return of the function, or the return value so far. -/
inductive Filtered where
  | returns (ret : Int)
  | goesOn (ret : Int)

/-- `NLMSG_ERROR`: the return of the function, if there is one. `isCmd` is `nl == &netlink_cmd`. -/
def nlmsgErrorRet (isCmd : Bool) (h : List UInt8) : Exec Call (Option Int) := do
  let error ← Exec.deref (numberIn h 16 4)
  if error = 0 then
    return if nlmsgFlags h / 2 % 2 = 1 then none else some 0
  if nlmsghdr.lengthOf h < 36 then return some (-1)
  let errnum := (2 ^ 32 - error) % 2 ^ 32
  let msgType ← Exec.deref (numberIn h 24 2)
  if isCmd ∧ (msgType = rtmDelroute ∧ (errnum = 19 ∨ errnum = 3) ∨ msgType = rtmNewroute ∧ errnum = 17) then
    return some 0
  return some (-1)

/-- The loop over the messages of a datagram. -/
def filterMessages (isCmd : Bool) (filter : List UInt8 → Exec Call Int) : List (List UInt8) → Int → Exec Call Filtered
  | [], ret => pure (.goesOn ret)
  | h :: hs, ret => do
    if nlmsgType h = nlmsgDone then return .returns ret
    if nlmsgType h = nlmsgError then
      match ← nlmsgErrorRet isCmd h with
      | some ret => return .returns ret
      | none => filterMessages isCmd filter hs ret
    else
      let error ← filter h
      filterMessages isCmd filter hs (if error < 0 then error else ret)

/-- `netlink_parse_info`, with what the calls of `recvmsg` come to. What does not fit into the buffer is lost, and
`MSG_TRUNC` says so. -/
def netlinkParseInfo (isCmd : Bool) (filter : List UInt8 → Exec Call Int) : List Recvmsg → Int → Exec Call Int
  | [], _ => Exec.undefined
  | .interrupted :: rs, ret => netlinkParseInfo isCmd filter rs ret
  | .wouldBlock :: _, ret => pure ret
  | .closed :: _, _ => pure (-1)
  | .datagram bytes :: rs, ret => do
    let buf := bytes.take sizeofBuf
    if buf = [] then return -1
    match ← filterMessages isCmd filter (nlmsghdr.walk buf.length buf) ret with
    | .returns ret => return ret
    | .goesOn ret =>
      let rest ← Exec.deref (nlmsghdr.rest buf.length buf)
      if sizeofBuf < bytes.length ∨ rest = [] then netlinkParseInfo isCmd filter rs ret else return -1

/-- `netlink_route_read`: whether the two requests could be sent, and what the calls of `recvmsg` come to after each. -/
def netlinkRouteRead (rtaMax : Nat) (info : RoutingTableInfo) (sent sent6 : Bool) (rs rs6 : List Recvmsg) :
    Exec Call Int := do
  if ¬ sent then return -1
  let ret ← netlinkParseInfo true (netlinkRoutingTable rtaMax info) rs 0
  if ret < 0 then return ret
  if ¬ sent6 then return -1
  let ret6 ← netlinkParseInfo true (netlinkRoutingTable rtaMax info) rs6 0
  if ret6 < 0 then return ret6
  return 0

/-- `netlink_wait_for_rib_changes`. -/
def netlinkWaitForRibChanges (rtaMax : Nat) (info : RoutingTableInfo) (rs : List Recvmsg) : Exec Call Int :=
  netlinkParseInfo false (netlinkRoutingTable rtaMax info) rs 0

/-- A message about a route, as the kernel makes it. -/
structure RouteMessage where
  remove : Bool
  flags : UInt16
  seq : UInt32
  pid : UInt32
  rtm : Rtmsg
  attributes : List (Nat × List UInt8)

namespace RouteMessage

variable (m : RouteMessage)

/-- The message as it is sent. -/
def nlmsg : Nlmsg where
  type := if m.remove then rtmDelroute else rtmNewroute
  flags := m.flags
  seq := m.seq
  pid := m.pid
  payload := m.rtm.bytes ++ rtattr.pads 0 (m.attributes.map fun a => rtattrBytes a.1 a.2)

/-- The data of the last attribute of a type. -/
def last (type : Nat) : Option (List UInt8) := (m.attributes.reverse.find? (·.1 = type)).map Prod.snd

/-- The lengths fit into their fields, and the attributes have the sizes that go with their types. -/
structure WellFormed : Prop where
  attribute_lt : ∀ a ∈ m.attributes, a.1 < 2 ^ 16 ∧ 4 + a.2.length < 2 ^ 16
  length_lt : 16 + m.nlmsg.payload.length < 2 ^ 32
  dst : ∀ d ∈ m.last rtaDst, ∀ family ∈ Family.ofByte m.rtm.family, family.size ≤ d.length
  oif : ∀ d ∈ m.last rtaOif, 4 ≤ d.length
  priority : ∀ d ∈ m.last rtaPriority, 4 ≤ d.length

/-- A route of an address family that the callbacks are for: no unreachable one, no clone, none from a redirect and none
for a range of senders. -/
def shown (info : RoutingTableInfo) : Option Family :=
  if m.rtm.type = 7 ∨ m.rtm.flags.toNat / 0x200 % 2 = 1 ∨ m.rtm.protocol = 1 ∨ m.rtm.srcLen ≠ 0 then none
  else (Family.ofByte m.rtm.family).filter fun family =>
    if m.remove then info.ribRemove family else info.ribAdd family

/-- The number in the last attribute of a type. -/
def number (type : Nat) : Nat := ((m.last type).map fun d => ofLe (d.take 4)).getD 0

/-- The route as the message says it; what a pointer points to begins with the data of the attribute. -/
structure Says (family : Family) (route : Route) : Prop where
  family_eq : route.family = family
  addr_eq : route.addr = ((m.last rtaDst).getD (List.replicate 16 0)).take family.size
  prefixlen_eq : route.prefixlen = m.rtm.dstLen
  gate : Option.Rel (· <+: ·) (m.last rtaGateway) route.gate
  src : Option.Rel (· <+: ·) (if family = .inet then m.last rtaPrefsrc else none) route.src
  ifindex_eq : route.ifindex = m.number rtaOif
  vrfId_eq : route.vrfId = m.rtm.table
  metric_eq : route.metric = m.number rtaPriority

/-- The calls that a message gives: one for a route that is shown, to the callback for its type. -/
def Told (info : RoutingTableInfo) (calls : List Call) : Prop :=
  match m.shown info with
  | none => calls = []
  | some family => ∃ route, m.Says family route ∧ calls = [if m.remove then .ribRemove route else .ribAdd route]

end RouteMessage

namespace Nlmsg

variable (n : Nlmsg) (x : List UInt8)

theorem bytes_append : n.bytes ++ x = le 4 (16 + n.payload.length) ++ (le 2 n.type ++ (le 2 n.flags.toNat ++
    (le 4 n.seq.toNat ++ (le 4 n.pid.toNat ++ (n.payload ++ x))))) := by
  simp only [bytes, List.append_assoc]

@[simp] theorem length_bytes : n.bytes.length = 16 + n.payload.length := by
  simp only [bytes, List.length_append, length_le]

variable {n}

theorem isRecord (h : 16 + n.payload.length < 2 ^ 32) : nlmsghdr.IsRecord n.bytes where
  header_le := by
    rw [length_bytes]
    exact Nat.le_add_right _ _
  lengthOf_eq := by
    show ofLe (n.bytes.take 4) = _
    rw [length_bytes, ← List.append_nil n.bytes, bytes_append, List.take_left' (length_le 4 _), ofLe_le,
      Nat.mod_eq_of_lt h]

theorem nlmsgType_bytes (h : n.type < 2 ^ 16) : nlmsgType (n.bytes ++ x) = n.type := by
  rw [nlmsgType, bytes_append, List.drop_left' (length_le 4 _), List.take_left' (length_le 2 _), ofLe_le,
    Nat.mod_eq_of_lt h]

theorem nlmsgData_bytes : nlmsgData (n.bytes ++ x) = n.payload ++ x := by
  rw [nlmsgData, bytes_append, ← List.append_assoc, ← List.append_assoc, ← List.append_assoc, ← List.append_assoc]
  exact List.drop_left' (by simp only [List.length_append, length_le])

end Nlmsg

namespace Rtmsg

variable (r : Rtmsg) (x : List UInt8)

@[simp] theorem length_bytes : r.bytes.length = 12 := rfl

/-- The fields that are read, in the message. -/
theorem fields : (r.bytes ++ x)[0]? = some r.family ∧ (r.bytes ++ x)[1]? = some r.dstLen ∧
    (r.bytes ++ x)[2]? = some r.srcLen ∧ (r.bytes ++ x)[4]? = some r.table ∧ (r.bytes ++ x)[5]? = some r.protocol ∧
    (r.bytes ++ x)[7]? = some r.type := ⟨rfl, rfl, rfl, rfl, rfl, rfl⟩

theorem numberIn_flags : numberIn (r.bytes ++ x) 8 4 = some r.flags.toNat := by
  have hflags := r.flags.toNat_lt
  have hdrop : (r.bytes ++ x).drop 8 = le 4 r.flags.toNat ++ x := rfl
  rw [numberIn, bytesAt, if_pos (by simp), hdrop, List.take_left' (length_le 4 _), Option.map_some, ofLe_le,
    Nat.mod_eq_of_lt hflags]

end Rtmsg

section Attribute

variable {type : Nat} {data : List UInt8}

@[simp] theorem length_rtattrBytes : (rtattrBytes type data).length = 4 + data.length := by
  simp only [rtattrBytes, List.length_append, length_le]

theorem rtattrBytes_append (x : List UInt8) :
    rtattrBytes type data ++ x = le 2 (4 + data.length) ++ (le 2 type ++ (data ++ x)) := by
  simp only [rtattrBytes, List.append_assoc]

theorem isRecord_rtattrBytes (h : 4 + data.length < 2 ^ 16) : rtattr.IsRecord (rtattrBytes type data) where
  header_le := by
    rw [length_rtattrBytes]
    exact Nat.le_add_right _ _
  lengthOf_eq := by
    show ofLe ((rtattrBytes type data).take 2) = _
    rw [length_rtattrBytes, ← List.append_nil (rtattrBytes type data), rtattrBytes_append,
      List.take_left' (length_le 2 _), ofLe_le, Nat.mod_eq_of_lt h]

theorem rtaType_rtattrBytes (h : type < 2 ^ 16) (x : List UInt8) : rtaType (rtattrBytes type data ++ x) = type := by
  rw [rtaType, rtattrBytes_append, List.drop_left' (length_le 2 _), List.take_left' (length_le 2 _), ofLe_le,
    Nat.mod_eq_of_lt h]

theorem rtaData_rtattrBytes (x : List UInt8) : rtaData (rtattrBytes type data ++ x) = data ++ x := by
  rw [rtaData, rtattrBytes_append, ← List.append_assoc]
  exact List.drop_left' (by simp only [List.length_append, length_le])

end Attribute

section Attributes

variable {max type : Nat} {attributes : List (Nat × List UInt8)}

/-- The last attribute of a type is the one that stays. -/
theorem enter_foldl (tb : Attributes) (htype : type ≤ max) {ys : List (List UInt8)}
    (hall : List.Forall₂ (fun a y => rtattrBytes a.1 a.2 <+: y) attributes ys) (hlt : ∀ a ∈ attributes, a.1 < 2 ^ 16)
    {found : Option (List UInt8)} (hfound : Option.Rel (· <+: ·) found (tb type)) :
    Option.Rel (· <+: ·) (((attributes.reverse.find? (·.1 = type)).map Prod.snd).or found)
      (ys.foldl (enter max) tb type) := by
  induction hall generalizing found tb with
  | nil => exact hfound
  | @cons a y attributes ys hy _ ih =>
      obtain ⟨ha, hrest⟩ := List.forall_mem_cons.mp hlt
      obtain ⟨x, rfl⟩ := hy
      have hor : ((((a :: attributes).reverse.find? (·.1 = type)).map Prod.snd).or found) =
          ((attributes.reverse.find? (·.1 = type)).map Prod.snd).or
            (if a.1 = type then some a.2 else found) := by
        rw [List.reverse_cons, List.find?_append]
        cases attributes.reverse.find? (·.1 = type) with
        | some b => rfl
        | none => by_cases h : a.1 = type <;> simp [h]
      rw [hor, List.foldl_cons]
      refine ih _ hrest ?_
      rw [enter, rtaType_rtattrBytes ha, rtaData_rtattrBytes]
      by_cases h : a.1 = type
      · subst h
        rw [if_pos rfl, if_pos htype, Function.update_self]
        exact .some (List.prefix_append _ _)
      · rw [if_neg h]
        by_cases hmax : a.1 ≤ max
        · rwa [if_pos hmax, Function.update_of_ne (Ne.symm h)]
        · rwa [if_neg hmax]

end Attributes

namespace RouteMessage

variable {m : RouteMessage}

theorem WellFormed.isRecord (h : m.WellFormed) :
    ∀ r ∈ m.attributes.map fun a => rtattrBytes a.1 a.2, rtattr.IsRecord r := by
  intro r hr
  obtain ⟨a, ha, rfl⟩ := List.mem_map.mp hr
  exact isRecord_rtattrBytes (h.attribute_lt a ha).2

/-- `netlink_parse_rtattr` on the attributes of a message. -/
theorem WellFormed.parse (h : m.WellFormed) {max type : Nat} (htype : type ≤ max) :
    Option.Rel (· <+: ·) (m.last type)
      (netlinkParseRtattr max (rtattr.pads 0 (m.attributes.map fun a => rtattrBytes a.1 a.2)) type) := by
  have hle := Aligned.length_le_pads 0 h.isRecord
  obtain ⟨ys, hys, hall⟩ := Aligned.walk_pads 0 h.isRecord _ []
  rw [List.append_nil, Nat.add_sub_cancel' hle, Aligned.walk_of_not_ok _ Aligned.not_ok_nil, List.append_nil] at hys
  have hlast := enter_foldl (fun _ => none) htype (List.forall₂_map_left_iff.mp hall)
    (fun a ha => (h.attribute_lt a ha).1) .none
  rwa [Option.or_none, ← hys] at hlast

end RouteMessage

section Prefixes

variable {found : Option (List UInt8)} {data : Option (List UInt8)}

theorem intIn_of_rel (h : Option.Rel (· <+: ·) found data) (hlen : ∀ d ∈ found, 4 ≤ d.length) :
    intIn data = pure ((found.map fun d => ofLe (d.take 4)).getD 0) := by
  cases h with
  | none => rfl
  | @some d d' h =>
      obtain ⟨x, rfl⟩ := h
      have h4 := hlen d rfl
      rw [intIn, numberIn, bytesAt, if_pos (by rw [List.length_append]; omega), List.drop_zero,
        List.take_append_of_le_length h4]
      rfl

theorem bytesAt_of_rel (h : Option.Rel (· <+: ·) found data) {n : Nat} (hn : n ≤ 16)
    (hlen : ∀ d ∈ found, n ≤ d.length) :
    bytesAt (data.getD (List.replicate 16 0)) 0 n = some ((found.getD (List.replicate 16 0)).take n) := by
  cases h with
  | none => exact if_pos (by rw [Option.getD_none, List.length_replicate]; omega)
  | @some d d' h =>
      obtain ⟨x, rfl⟩ := h
      have hd := hlen d rfl
      rw [Option.getD_some, Option.getD_some, bytesAt, if_pos (by rw [List.length_append]; omega), List.drop_zero,
        List.take_append_of_le_length hd]

end Prefixes

theorem Family.size_le (family : Family) : family.size ≤ 16 := by cases family <;> decide

namespace RouteMessage

variable {m : RouteMessage} {info : RoutingTableInfo} {rtaMax : Nat} {h : List UInt8}

theorem nlmsg_type : m.nlmsg.type = if m.remove then rtmDelroute else rtmNewroute := rfl

theorem type_lt : m.nlmsg.type < 2 ^ 16 := by
  rw [nlmsg_type]
  split <;> decide

theorem WellFormed.lengthOf_nlmsg (hwf : m.WellFormed) (x : List UInt8) :
    nlmsghdr.lengthOf (m.nlmsg.bytes ++ x) = m.nlmsg.bytes.length := by
  have hrecord := Nlmsg.isRecord hwf.length_lt
  rw [nlmsghdr.lengthOf_append _ _ hrecord.header_le, hrecord.lengthOf_eq]

/-- The attributes stand behind the two headers. -/
theorem attributes_nlmsg :
    m.nlmsg.bytes.drop 28 = rtattr.pads 0 (m.attributes.map fun a => rtattrBytes a.1 a.2) := by
  have hdrop := Nlmsg.nlmsgData_bytes (n := m.nlmsg) []
  rw [nlmsgData, List.append_nil, List.append_nil] at hdrop
  rw [← List.drop_drop (i := 12) (j := 16), hdrop, nlmsg]
  exact List.drop_left' m.rtm.length_bytes

/-- A message that is passed over. -/
theorem told_nil (h : m.rtm.type = 7 ∨ m.rtm.flags.toNat / 0x200 % 2 = 1 ∨ m.rtm.protocol = 1 ∨ m.rtm.srcLen ≠ 0) :
    m.Told info [] := by
  rw [Told, shown, if_pos h]

/-- The callback of a message that is not passed over. -/
theorem WellFormed.told_callback (hwf : m.WellFormed)
    (hnot : ¬ (m.rtm.type = 7 ∨ m.rtm.flags.toNat / 0x200 % 2 = 1 ∨ m.rtm.protocol = 1 ∨ m.rtm.srcLen ≠ 0))
    {family : Family} (hfamily : Family.ofByte m.rtm.family = some family) {tb : Attributes}
    (htb : ∀ type ≤ 7, Option.Rel (· <+: ·) (m.last type) (tb type)) :
    (callback info m.remove family m.rtm.dstLen m.rtm.table tb (m.number rtaOif) (m.number rtaPriority)).result =
        some 0 ∧
      m.Told info (callback info m.remove family m.rtm.dstLen m.rtm.table tb (m.number rtaOif)
        (m.number rtaPriority)).outs := by
  have haddr := bytesAt_of_rel (htb rtaDst (by decide)) family.size_le fun d hd => hwf.dst d hd family hfamily
  by_cases hcallback : (if m.remove then info.ribRemove family else info.ribAdd family) = true
  · rw [callback, if_pos hcallback, haddr]
    refine ⟨rfl, ?_⟩
    have hshown : m.shown info = some family := by
      rw [shown, if_neg hnot, hfamily, Option.filter_some]
      exact if_pos hcallback
    rw [Told, hshown]
    refine ⟨_, ⟨rfl, rfl, rfl, htb rtaGateway (by decide), ?_, rfl, rfl, rfl⟩, rfl⟩
    by_cases hinet : family = .inet
    · rw [if_pos hinet, if_pos hinet]
      exact htb rtaPrefsrc (by decide)
    · rw [if_neg hinet, if_neg hinet]
      exact .none
  · rw [callback, if_neg hcallback]
    refine ⟨rfl, ?_⟩
    have hshown : m.shown info = none := by
      rw [shown, if_neg hnot, hfamily, Option.filter_some]
      exact if_neg hcallback
    rw [Told, hshown]
    rfl

/-- `netlink_routing_table` gives the callback what the message says. -/
theorem WellFormed.told (hwf : m.WellFormed) (hmax : 7 ≤ rtaMax) (hh : m.nlmsg.bytes <+: h) :
    (netlinkRoutingTable rtaMax info h).result = some 0 ∧
      m.Told info (netlinkRoutingTable rtaMax info h).outs := by
  obtain ⟨x, rfl⟩ := hh
  have htype := Nlmsg.nlmsgType_bytes x m.type_lt
  have hdata := Nlmsg.nlmsgData_bytes (n := m.nlmsg) x
  have hlength := hwf.lengthOf_nlmsg x
  have hroute : ¬ (m.nlmsg.type ≠ rtmNewroute ∧ m.nlmsg.type ≠ rtmDelroute) := by
    rw [nlmsg_type]
    split <;> decide
  have hshort : ¬ m.nlmsg.bytes.length < 28 := by
    rw [Nlmsg.length_bytes, nlmsg, List.length_append, Rtmsg.length_bytes]
    omega
  have hpayload : m.nlmsg.payload ++ x = m.rtm.bytes ++
      (rtattr.pads 0 (m.attributes.map fun a => rtattrBytes a.1 a.2) ++ x) := List.append_assoc _ _ _
  obtain ⟨hfamily, hdstLen, hsrcLen, htable, hprotocol, hrtmType⟩ := m.rtm.fields
    (rtattr.pads 0 (m.attributes.map fun a => rtattrBytes a.1 a.2) ++ x)
  simp only [netlinkRoutingTable, htype, hdata, hlength, if_neg hroute, if_neg hshort, List.take_left',
    attributes_nlmsg, hpayload, hfamily, hdstLen, hsrcLen, htable, hprotocol, hrtmType, Rtmsg.numberIn_flags,
    Exec.deref_some_bind]
  by_cases hunreachable : m.rtm.type = 7
  · simp only [if_pos hunreachable]
    exact ⟨rfl, told_nil (.inl hunreachable)⟩
  by_cases hclone : m.rtm.flags.toNat / 0x200 % 2 = 1
  · simp only [if_neg hunreachable, if_pos hclone]
    exact ⟨rfl, told_nil (.inr (.inl hclone))⟩
  by_cases hredirect : m.rtm.protocol = 1
  · simp only [if_neg hunreachable, if_neg hclone, if_pos hredirect]
    exact ⟨rfl, told_nil (.inr (.inr (.inl hredirect)))⟩
  by_cases hsrc : m.rtm.srcLen ≠ 0
  · simp only [if_neg hunreachable, if_neg hclone, if_neg hredirect, if_pos hsrc]
    exact ⟨rfl, told_nil (.inr (.inr (.inr hsrc)))⟩
  simp only [if_neg hunreachable, if_neg hclone, if_neg hredirect, if_neg hsrc]
  have hremove : (decide (m.nlmsg.type = rtmDelroute)) = m.remove := by
    rw [nlmsg_type]
    cases m.remove <;> decide
  rw [intIn_of_rel (hwf.parse (by unfold rtaOif; omega)) hwf.oif,
    intIn_of_rel (hwf.parse (by unfold rtaPriority; omega)) hwf.priority, hremove]
  simp only [pure_bind]
  cases hof : Family.ofByte m.rtm.family with
  | none =>
      refine ⟨rfl, ?_⟩
      rw [Told, shown, hof, Option.filter_none, ite_self]
      rfl
  | some family =>
      exact hwf.told_callback (fun hnot => hnot.elim hunreachable fun hnot => hnot.elim hclone fun hnot =>
        hnot.elim hredirect hsrc) hof fun type htype => hwf.parse (Nat.le_trans htype hmax)

end RouteMessage

/-! ### Datagrams -/

open RouteMessage

section Datagrams

variable {rtaMax : Nat} {info : RoutingTableInfo} {isCmd : Bool} {ms : List RouteMessage}

/-- Messages as they come in a datagram. -/
def datagram (ns : List Nlmsg) : List UInt8 := nlmsghdr.pads 0 (ns.map Nlmsg.bytes)

/-- Messages, cut into datagrams that fit into the buffer, as the calls of `recvmsg` give them, and what
`netlink_parse_info` returns then: 0 at the end of a dump or where there is nothing more, and nothing yet while it
waits. -/
inductive Received : List Nlmsg → List Recvmsg → Option Int → Prop where
  | waiting : Received [] [] none
  | wouldBlock (rs : List Recvmsg) : Received [] (.wouldBlock :: rs) (some 0)
  | interrupted {ns : List Nlmsg} {rs : List Recvmsg} {ret : Option Int} :
      Received ns rs ret → Received ns (.interrupted :: rs) ret
  | part {ns ns' : List Nlmsg} {rs : List Recvmsg} {ret : Option Int} :
      ns ≠ [] → (datagram ns).length ≤ sizeofBuf → Received ns' rs ret →
        Received (ns ++ ns') (.datagram (datagram ns) :: rs) ret
  | done (ns : List Nlmsg) (n : Nlmsg) (x : List UInt8) (rs : List Recvmsg) :
      n.type = nlmsgDone → (datagram ns ++ n.bytes).length ≤ sizeofBuf →
        Received ns (.datagram (datagram ns ++ (n.bytes ++ x)) :: rs) (some 0)

/-- The walk over a datagram comes to its messages and then to what stands behind them. -/
theorem walk_datagram (hwf : ∀ m ∈ ms, m.WellFormed) (x : List UInt8) :
    ∃ ys n, x.length ≤ n ∧ (ms ≠ [] → datagram (ms.map nlmsg) ≠ []) ∧
      nlmsghdr.walk (datagram (ms.map nlmsg) ++ x).length (datagram (ms.map nlmsg) ++ x) = ys ++ nlmsghdr.walk n x ∧
      nlmsghdr.rest (datagram (ms.map nlmsg) ++ x).length (datagram (ms.map nlmsg) ++ x) = nlmsghdr.rest n x ∧
      List.Forall₂ (fun m y => m.nlmsg.bytes <+: y) ms ys := by
  have hrecord : ∀ r ∈ (ms.map nlmsg).map Nlmsg.bytes, nlmsghdr.IsRecord r := by
    rintro r hr
    obtain ⟨n, hn, rfl⟩ := List.mem_map.mp hr
    obtain ⟨m, hm, rfl⟩ := List.mem_map.mp hn
    exact Nlmsg.isRecord (hwf m hm).length_lt
  have hle : ms.length ≤ (datagram (ms.map nlmsg)).length := by
    have hle := Aligned.length_le_pads 0 hrecord
    rwa [List.length_map, List.length_map] at hle
  have hlength : (datagram (ms.map nlmsg) ++ x).length =
      ((ms.map nlmsg).map Nlmsg.bytes).length + ((datagram (ms.map nlmsg)).length - ms.length + x.length) := by
    rw [List.length_append, List.length_map, List.length_map]
    omega
  obtain ⟨ys, hys, hall⟩ := Aligned.walk_pads 0 hrecord ((datagram (ms.map nlmsg)).length - ms.length + x.length) x
  refine ⟨ys, (datagram (ms.map nlmsg)).length - ms.length + x.length, Nat.le_add_left _ _, ?_, ?_, ?_, ?_⟩
  · rintro hne hnil
    rw [hnil] at hle
    exact hne (List.length_eq_zero_iff.mp (Nat.le_zero.mp hle))
  · rw [hlength]
    exact hys
  · rw [hlength]
    exact Aligned.rest_pads 0 hrecord _ x
  · rw [List.map_map] at hall
    exact List.forall₂_map_left_iff.mp hall

/-- The loop over a datagram goes through its messages. -/
theorem filterMessages_append (isCmd : Bool) (info : RoutingTableInfo) (hmax : 7 ≤ rtaMax)
    (hwf : ∀ m ∈ ms, m.WellFormed) {ys : List (List UInt8)}
    (hall : List.Forall₂ (fun m y => m.nlmsg.bytes <+: y) ms ys) (zs : List (List UInt8)) (ret : Int) :
    ∃ calls, List.Forall₂ (Told · info) ms calls ∧
      filterMessages isCmd (netlinkRoutingTable rtaMax info) (ys ++ zs) ret =
        ⟨calls.flatten ++ (filterMessages isCmd (netlinkRoutingTable rtaMax info) zs ret).outs,
          (filterMessages isCmd (netlinkRoutingTable rtaMax info) zs ret).result⟩ := by
  induction hall with
  | nil => exact ⟨[], .nil, rfl⟩
  | @cons m y ms ys hy _ ih =>
      obtain ⟨hm, hms⟩ := List.forall_mem_cons.mp hwf
      obtain ⟨calls, hcalls, hrun⟩ := ih hms
      obtain ⟨hresult, htold⟩ : (netlinkRoutingTable rtaMax info y).result = some 0 ∧
          m.Told info (netlinkRoutingTable rtaMax info y).outs := hm.told hmax hy
      refine ⟨_ :: calls, .cons htold hcalls, ?_⟩
      have htype : nlmsgType y = m.nlmsg.type := by
        obtain ⟨x, rfl⟩ := hy
        exact Nlmsg.nlmsgType_bytes x m.type_lt
      have hdone : nlmsgType y ≠ nlmsgDone := by
        rw [htype, nlmsg_type]
        split <;> decide
      have herror : nlmsgType y ≠ nlmsgError := by
        rw [htype, nlmsg_type]
        split <;> decide
      rw [List.cons_append, filterMessages, if_neg hdone, if_neg herror, Exec.bind_of_some _ hresult,
        if_neg (by decide), hrun, List.flatten_cons, List.append_assoc]

/-- The calls of `netlink_parse_info`: those that the messages give, each once and in order, however they are cut into
datagrams that fit. -/
theorem Received.calls (isCmd : Bool) (info : RoutingTableInfo) (hmax : 7 ≤ rtaMax) {rs : List Recvmsg}
    {ret : Option Int} (h : Received (ms.map nlmsg) rs ret) (hwf : ∀ m ∈ ms, m.WellFormed) :
    ∃ calls, List.Forall₂ (Told · info) ms calls ∧
      netlinkParseInfo isCmd (netlinkRoutingTable rtaMax info) rs 0 = ⟨calls.flatten, ret⟩ := by
  generalize hns : ms.map nlmsg = ns at h
  induction h generalizing ms with
  | waiting =>
      cases List.map_eq_nil_iff.mp hns
      exact ⟨[], .nil, rfl⟩
  | wouldBlock rs =>
      cases List.map_eq_nil_iff.mp hns
      exact ⟨[], .nil, rfl⟩
  | interrupted _ ih => exact ih hwf hns
  | @part ns ns' rs ret hne hfits _ ih =>
      obtain ⟨ms, ms', rfl, rfl, rfl⟩ := List.map_eq_append_iff.mp hns
      obtain ⟨hms, hms'⟩ := List.forall_mem_append.mp hwf
      obtain ⟨calls', hcalls', hrun'⟩ := ih hms' rfl
      obtain ⟨ys, n, -, hnil, hwalk, hrest, hall⟩ := walk_datagram hms []
      obtain ⟨calls, hcalls, hrun⟩ := filterMessages_append isCmd info hmax hms hall [] 0
      rw [List.append_nil, Aligned.walk_of_not_ok _ Aligned.not_ok_nil] at hwalk
      rw [List.append_nil, Aligned.rest_of_not_ok _ Aligned.not_ok_nil] at hrest
      refine ⟨calls ++ calls', List.rel_append hcalls hcalls', ?_⟩
      have hgoes : filterMessages isCmd (netlinkRoutingTable rtaMax info) [] 0 = pure (.goesOn 0) := rfl
      rw [hgoes] at hrun
      rw [netlinkParseInfo, List.take_of_length_le hfits, if_neg (hnil fun h => hne (by rw [h]; rfl)), hwalk, hrun,
        Exec.bind_of_some _ rfl]
      simp only [hrest, Exec.deref_some_bind, or_true, if_true]
      rw [hrun', List.flatten_append, Exec.outs_pure, List.append_nil]
  | done ns n x₀ rs htype hfits =>
      subst hns
      -- what is left of the bytes behind the last message
      obtain ⟨x, hx⟩ : ∃ x, (datagram (ms.map nlmsg) ++ (n.bytes ++ x₀)).take sizeofBuf =
          datagram (ms.map nlmsg) ++ (n.bytes ++ x) := by
        refine ⟨x₀.take (sizeofBuf - (datagram (ms.map nlmsg) ++ n.bytes).length), ?_⟩
        rw [← List.append_assoc, ← List.append_assoc, List.take_append, List.take_of_length_le hfits]
      have hlt : 16 + n.payload.length < 2 ^ 32 := by
        have hlength : n.bytes.length = 16 + n.payload.length := n.length_bytes
        rw [List.length_append, hlength] at hfits
        unfold sizeofBuf at hfits
        omega
      obtain ⟨ys, k, hk, -, hwalk, -, hall⟩ := walk_datagram hwf (n.bytes ++ x)
      have hrecord := Nlmsg.isRecord hlt
      have hne : n.bytes ++ x ≠ [] := fun hnil => Aligned.not_ok_nil (hnil ▸ hrecord.ok x)
      obtain ⟨k, rfl⟩ : ∃ j, k = j + 1 := Nat.exists_eq_succ_of_ne_zero
        (Nat.ne_of_gt (Nat.lt_of_lt_of_le (List.length_pos_iff.mpr hne) hk))
      rw [Aligned.walk, if_pos (hrecord.ok x)] at hwalk
      obtain ⟨calls, hcalls, hrun⟩ := filterMessages_append isCmd info hmax hwf hall _ 0
      refine ⟨calls, hcalls, ?_⟩
      have hdone : nlmsgType (n.bytes ++ x) = nlmsgDone := by
        rw [Nlmsg.nlmsgType_bytes x (by rw [htype]; decide), htype]
      rw [netlinkParseInfo, hx, if_neg (List.append_ne_nil_of_right_ne_nil _ hne), hwalk, hrun, filterMessages,
        if_pos hdone, Exec.bind_of_some _ rfl]
      simp

/-- `netlink_route_read` gives the callbacks the routes of both dumps, each once and in order, where every datagram fits
into the buffer. -/
theorem netlinkRouteRead_calls {rtaMax : Nat} {info : RoutingTableInfo} {ms ms6 : List RouteMessage}
    {rs rs6 : List Recvmsg} (hmax : 7 ≤ rtaMax) (h : Received (ms.map nlmsg) rs (some 0))
    (h6 : Received (ms6.map nlmsg) rs6 (some 0)) (hwf : ∀ m ∈ ms, m.WellFormed) (hwf6 : ∀ m ∈ ms6, m.WellFormed) :
    ∃ calls, List.Forall₂ (Told · info) (ms ++ ms6) calls ∧
      netlinkRouteRead rtaMax info true true rs rs6 = ⟨calls.flatten, some 0⟩ := by
  obtain ⟨calls, hcalls, hrun⟩ := h.calls true info hmax hwf
  obtain ⟨calls6, hcalls6, hrun6⟩ := h6.calls true info hmax hwf6
  refine ⟨calls ++ calls6, List.rel_append hcalls hcalls6, ?_⟩
  rw [netlinkRouteRead, if_neg (by decide), hrun, Exec.bind_of_some _ rfl, if_neg (by decide), if_neg (by decide),
    hrun6, Exec.bind_of_some _ rfl, if_neg (by decide), List.flatten_append]
  simp

end Datagrams

/-- The way out of 10.0.0.0/8. -/
def gatewayRoute : RouteMessage where
  remove := false
  flags := 2
  seq := 1
  pid := 0
  rtm := ⟨2, 8, 0, 0, 254, 4, 0, 1, 0⟩
  attributes := [(rtaDst, [10, 0, 0, 0]), (rtaGateway, [10, 0, 0, 1]), (rtaOif, le 4 2)]

theorem gatewayRoute_wellFormed : gatewayRoute.WellFormed where
  attribute_lt := by decide
  length_lt := by decide
  dst := by decide
  oif := by decide
  priority := by decide

theorem netlinkRouteRead_calls_of_gateway :
    ∃ calls, List.Forall₂ (Told · ⟨fun _ => true, fun _ => true⟩) [gatewayRoute] calls ∧
      netlinkRouteRead 30 ⟨fun _ => true, fun _ => true⟩ true true
        [.interrupted, .datagram (datagram [gatewayRoute.nlmsg]),
          .datagram ((⟨3, 2, 1, 0, [0, 0, 0, 0]⟩ : Nlmsg).bytes)] [.wouldBlock] = ⟨calls.flatten, some 0⟩ :=
  have hreceived : Received ([gatewayRoute].map nlmsg) [.interrupted, .datagram (datagram [gatewayRoute.nlmsg]),
      .datagram ((⟨3, 2, 1, 0, [0, 0, 0, 0]⟩ : Nlmsg).bytes)] (some 0) :=
    .interrupted (.part (List.cons_ne_nil gatewayRoute.nlmsg []) (by decide)
      (.done [] ⟨3, 2, 1, 0, [0, 0, 0, 0]⟩ [] [] rfl (by decide)))
  have hreceived6 : Received (([] : List RouteMessage).map nlmsg) [.wouldBlock] (some 0) := .wouldBlock []
  netlinkRouteRead_calls (by decide) hreceived hreceived6 (List.forall_mem_singleton.mpr gatewayRoute_wellFormed)
    (List.forall_mem_nil _)

/-- A call of `netlink_route_set` or `netlink_route_unset`. -/
inductive Request where
  | set (p : List UInt8) (prefixlen : UInt8) (ifindex : UInt32) (gateway : List UInt8)
  | unset (p : List UInt8) (prefixlen : UInt8) (ifindex : UInt32)

namespace Request

/-- What it sends. -/
def nlmsg : Request → Nlmsg
  | set p prefixlen ifindex gateway => netlinkRouteSet p prefixlen ifindex gateway
  | unset p prefixlen ifindex => netlinkRouteUnset p prefixlen ifindex

/-- The addresses are IPv6 addresses. -/
def Sized : Request → Prop
  | set p _ _ gateway => p.length = 16 ∧ gateway.length = 16
  | unset p _ _ => p.length = 16

/-- The same as a message about a route. -/
def message : Request → RouteMessage
  | set p prefixlen ifindex gateway =>
      { remove := false, flags := 0x401, seq := 0, pid := 0, rtm := ⟨10, prefixlen, 0, 0, 254, 11, 0, 1, 0⟩
        attributes := [(rtaDst, p), (rtaOif, le 4 ifindex.toNat), (rtaGateway, gateway)] }
  | unset p prefixlen ifindex =>
      { remove := true, flags := 0x401, seq := 0, pid := 0, rtm := ⟨10, prefixlen, 0, 0, 254, 11, 0, 1, 0⟩
        attributes := [(rtaDst, p), (rtaOif, le 4 ifindex.toNat)] }

end Request

/-- One more attribute. -/
theorem addattrL_nlmsg {m : RouteMessage} {maxlen type : Nat} {data : List UInt8} (hdvd : 4 ∣ data.length)
    (hfit : 16 + m.nlmsg.payload.length + (4 + data.length) ≤ maxlen) :
    addattrL m.nlmsg maxlen type data =
      { m with attributes := m.attributes ++ [(type, data)] : RouteMessage }.nlmsg := by
  have hpayload : 4 ∣ m.nlmsg.payload.length := by
    have hpads : 4 ∣ (rtattr.pads 0 (m.attributes.map fun a => rtattrBytes a.1 a.2)).length := Aligned.dvd_length_pads _
    rw [RouteMessage.nlmsg, List.length_append, Rtmsg.length_bytes]
    omega
  have halign : nlmsghdr.align (16 + m.nlmsg.payload.length) = 16 + m.nlmsg.payload.length :=
    Aligned.align_of_dvd (Nat.dvd_add (by decide) hpayload)
  have hattribute : rtattr.pad 0 (rtattrBytes type data) = rtattrBytes type data :=
    Aligned.pad_of_dvd (by rw [length_rtattrBytes]; exact Nat.dvd_add (Nat.dvd_refl 4) hdvd)
  rw [addattrL, halign, if_neg (Nat.not_lt_of_le hfit), Aligned.pad_of_dvd hpayload]
  simp only [RouteMessage.nlmsg, List.map_append, List.map_cons, List.map_nil, Aligned.pads_snoc, hattribute,
    List.append_assoc]

/-- There is room in the buffer for the attributes of a request. -/
theorem length_payload_le {m : RouteMessage} (hsize : ∀ a ∈ m.attributes, a.2.length ≤ 16) :
    m.nlmsg.payload.length ≤ 12 + 20 * m.attributes.length := by
  rw [RouteMessage.nlmsg, List.length_append, Rtmsg.length_bytes]
  refine Nat.add_le_add_left ?_ 12
  generalize m.attributes = attributes at hsize
  induction attributes with
  | nil => exact Nat.le_refl _
  | cons a attributes ih =>
      obtain ⟨ha, hrest⟩ := List.forall_mem_cons.mp hsize
      have hle := ih hrest
      have halign : rtattr.align (4 + a.2.length) ≤ 20 := by
        show (4 + a.2.length + 4 - 1) / 4 * 4 ≤ 20
        omega
      rw [List.map_cons, Aligned.pads_cons, List.length_append, Aligned.length_pad, length_rtattrBytes,
        List.length_cons]
      omega

/-- An address or an interface in a request. -/
def Short (a : Nat × List UInt8) : Prop := 4 ∣ a.2.length ∧ a.2.length ≤ 16

/-- The attributes of a request fit into the buffer. -/
theorem foldl_addattrL {attributes : List (Nat × List UInt8)} {m : RouteMessage} (hshort : ∀ a ∈ attributes, Short a)
    (hm : ∀ a ∈ m.attributes, Short a) (hcount : m.attributes.length + attributes.length ≤ 50) :
    attributes.foldl (fun n a => addattrL n sizeofReq a.1 a.2) m.nlmsg =
      { m with attributes := m.attributes ++ attributes : RouteMessage }.nlmsg := by
  induction attributes generalizing m with
  | nil => rw [List.append_nil]; rfl
  | cons a attributes ih =>
      obtain ⟨ha, hrest⟩ := List.forall_mem_cons.mp hshort
      have hle := length_payload_le fun a ha => (hm a ha).2
      have hlength : 16 + m.nlmsg.payload.length + (4 + a.2.length) ≤ sizeofReq := by
        have h16 := ha.2
        rw [List.length_cons] at hcount
        unfold sizeofReq
        omega
      rw [List.foldl_cons, addattrL_nlmsg ha.1 hlength, ih hrest]
      · simp only [List.append_assoc, List.cons_append, List.nil_append]
      · exact List.forall_mem_append.mpr ⟨hm, List.forall_mem_singleton.mpr ha⟩
      · simp only [List.length_append, List.length_cons, List.length_nil] at hcount ⊢
        omega

namespace Request

variable {r : Request}

theorem Sized.short (h : r.Sized) : ∀ a ∈ r.message.attributes, Short a := by
  have haddr : ∀ {type : Nat} {p : List UInt8}, p.length = 16 → Short (type, p) := fun hp =>
    ⟨by rw [hp]; decide, Nat.le_of_eq hp⟩
  have hindex : ∀ {type x : Nat}, Short (type, le 4 x) := fun {_ x} => by
    rw [Short, length_le]
    decide
  cases r with
  | set p prefixlen ifindex gateway => simp [message, haddr h.1, haddr h.2, hindex]
  | unset p prefixlen ifindex => simp [message, haddr h, hindex]

/-- A request is a message about its route. -/
theorem Sized.nlmsg_eq (h : r.Sized) : r.nlmsg = r.message.nlmsg := by
  have hadd := foldl_addattrL (m := { r.message with attributes := [] }) h.short (List.forall_mem_nil _)
    (by cases r <;> simp [message])
  cases r with
  | set p prefixlen ifindex gateway => exact hadd
  | unset p prefixlen ifindex => exact hadd

theorem Sized.wellFormed (h : r.Sized) : r.message.WellFormed where
  attribute_lt a ha := by
    have htype : ∀ a ∈ r.message.attributes, a.1 ≤ 5 := by
      cases r <;> simp [message, rtaDst, rtaOif, rtaGateway]
    have ha5 := htype a ha
    have hsize := (h.short a ha).2
    omega
  length_lt := by
    have hle := length_payload_le fun a ha => (h.short a ha).2
    have hcount : r.message.attributes.length ≤ 3 := by cases r <;> simp [message]
    omega
  dst d hd family _ := by
    have hlength : d.length = 16 := by
      cases r with
      | set p prefixlen ifindex gateway =>
          cases hd
          exact h.1
      | unset p prefixlen ifindex =>
          cases hd
          exact h
    rw [hlength]
    exact family.size_le
  oif d hd := by cases r <;> cases hd <;> exact Nat.le_of_eq (length_le 4 _).symm
  priority d hd := by cases r <;> cases hd

/-- A call that says the route of a request. -/
def ReadBack : Request → Call → Prop
  | set p prefixlen ifindex gateway, .ribAdd route =>
      route.family = .inet6 ∧ route.addr = p ∧ route.prefixlen = prefixlen ∧ route.ifindex = ifindex.toNat ∧
        ∃ gate, route.gate = some gate ∧ gateway <+: gate
  | unset p prefixlen ifindex, .ribRemove route =>
      route.family = .inet6 ∧ route.addr = p ∧ route.prefixlen = prefixlen ∧ route.ifindex = ifindex.toNat ∧
        route.gate = none
  | _, _ => False

theorem number_le (x : UInt32) : ofLe ((le 4 x.toNat).take 4) = x.toNat := by
  have hx := x.toNat_lt
  rw [List.take_of_length_le (Nat.le_of_eq (length_le 4 _)), ofLe_le, Nat.mod_eq_of_lt hx]

theorem gate_of_rel {found gate : Option (List UInt8)} (h : Option.Rel (· <+: ·) found gate) :
    (∀ g ∈ found, ∃ d, gate = some d ∧ g <+: d) ∧ (found = none → gate = none) := by
  cases h with
  | none => exact ⟨fun _ hg => absurd hg (by simp), fun _ => rfl⟩
  | @some g d hprefix => exact ⟨fun _ hg => ⟨d, rfl, by cases hg; exact hprefix⟩, fun hnone => by cases hnone⟩

/-- What a message with the address and the interface of a request says. -/
theorem says_request {m : RouteMessage} {route : Route} {p : List UInt8} {ifindex : UInt32}
    (hsaid : m.Says .inet6 route) (hdst : m.last rtaDst = some p) (hp : p.length = 16)
    (hoif : m.last rtaOif = some (le 4 ifindex.toNat)) :
    route.family = .inet6 ∧ route.addr = p ∧ route.prefixlen = m.rtm.dstLen ∧ route.ifindex = ifindex.toNat := by
  have haddr := hsaid.addr_eq
  have hindex := hsaid.ifindex_eq
  rw [hdst, Option.getD_some, Family.size, List.take_of_length_le (Nat.le_of_eq hp)] at haddr
  rw [number, hoif, Option.map_some, Option.getD_some, number_le] at hindex
  exact ⟨hsaid.family_eq, haddr, hsaid.prefixlen_eq, hindex⟩

theorem Sized.readBack (h : r.Sized) {info : RoutingTableInfo} (hadd : info.ribAdd .inet6 = true)
    (hremove : info.ribRemove .inet6 = true) {calls : List Call} (htold : r.message.Told info calls) :
    ∃ call, calls = [call] ∧ r.ReadBack call := by
  cases r with
  | set p prefixlen ifindex gateway =>
      have hshown : (set p prefixlen ifindex gateway).message.shown info = some .inet6 := by
        simp [shown, message, Family.ofByte, hadd]
      rw [Told, hshown] at htold
      obtain ⟨route, hsaid, rfl⟩ := htold
      obtain ⟨hfamily, haddr, hprefixlen, hindex⟩ := says_request hsaid rfl h.1 rfl
      exact ⟨_, rfl, hfamily, haddr, hprefixlen, hindex, (gate_of_rel hsaid.gate).1 gateway rfl⟩
  | unset p prefixlen ifindex =>
      have hshown : (unset p prefixlen ifindex).message.shown info = some .inet6 := by
        simp [shown, message, Family.ofByte, hremove]
      rw [Told, hshown] at htold
      obtain ⟨route, hsaid, rfl⟩ := htold
      obtain ⟨hfamily, haddr, hprefixlen, hindex⟩ := says_request hsaid rfl h rfl
      exact ⟨_, rfl, hfamily, haddr, hprefixlen, hindex, (gate_of_rel hsaid.gate).2 rfl⟩

end Request

/-- What the requests ask for is what `netlink_wait_for_rib_changes` hands on where it is sent back in datagrams that fit
into its buffer: one call for each request, in order. -/
theorem requests_read_back {rtaMax : Nat} {info : RoutingTableInfo} {requests : List Request} {rs : List Recvmsg}
    {ret : Option Int} (hmax : 7 ≤ rtaMax) (hadd : info.ribAdd .inet6 = true) (hremove : info.ribRemove .inet6 = true)
    (hsized : ∀ r ∈ requests, r.Sized) (h : Received (requests.map Request.nlmsg) rs ret) :
    ∃ calls, List.Forall₂ Request.ReadBack requests calls ∧ netlinkWaitForRibChanges rtaMax info rs = ⟨calls, ret⟩ := by
  have hmap : requests.map Request.nlmsg = (requests.map Request.message).map nlmsg := by
    rw [List.map_map]
    exact List.map_congr_left fun r hr => (hsized r hr).nlmsg_eq
  rw [hmap] at h
  obtain ⟨told, htold, hrun⟩ := h.calls false info hmax fun m hm => by
    obtain ⟨r, hr, rfl⟩ := List.mem_map.mp hm
    exact (hsized r hr).wellFormed
  rw [netlinkWaitForRibChanges, hrun]
  have hcalls : ∃ calls, List.Forall₂ Request.ReadBack requests calls ∧ told.flatten = calls := by
    clear hrun h hmap
    rw [List.forall₂_map_left_iff] at htold
    induction htold with
    | nil => exact ⟨[], .nil, rfl⟩
    | cons htold _ ih =>
        obtain ⟨hr, hrs⟩ := List.forall_mem_cons.mp hsized
        obtain ⟨calls, hcalls, hflatten⟩ := ih hrs
        obtain ⟨call, rfl, hcall⟩ := hr.readBack hadd hremove htold
        exact ⟨call :: calls, .cons hcall hcalls, by rw [List.flatten_cons, hflatten]; rfl⟩
  obtain ⟨calls, hcalls, rfl⟩ := hcalls
  exact ⟨_, hcalls, rfl⟩

theorem requests_read_back_of_two :
    ∃ calls, List.Forall₂ Request.ReadBack
        [.set (List.replicate 16 7) 64 3 (List.replicate 16 9), .unset (List.replicate 16 7) 64 3] calls ∧
      netlinkWaitForRibChanges 30 ⟨fun _ => true, fun _ => true⟩
        [.datagram (datagram [netlinkRouteSet (List.replicate 16 7) 64 3 (List.replicate 16 9)]), .interrupted,
          .datagram (datagram [netlinkRouteUnset (List.replicate 16 7) 64 3])] = ⟨calls, none⟩ :=
  requests_read_back (by decide) rfl rfl
    (List.forall_mem_cons.mpr ⟨⟨rfl, rfl⟩, List.forall_mem_singleton.mpr rfl⟩)
    (.part (List.cons_ne_nil (netlinkRouteSet _ _ _ _) []) (by set_option maxRecDepth 8000 in decide)
      (.interrupted (.part (List.cons_ne_nil (netlinkRouteUnset _ _ _) []) (by decide) .waiting)))

end Harry.Netlink
