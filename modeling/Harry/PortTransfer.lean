import Mathlib.Data.List.Forall2
import Mathlib.Data.List.Nodup
import Harry.BaseHost
import Harry.ControllerState
import Harry.RfpStream

/-! The ports of a datapath and their addresses on their way to the controller, and the ports on their way from there to
a sibling: `send_features_reply` and `send_addresses_reply` of the datapath, `router_process_features` and
`router_process_addresses`, then `sib_router_send_features_reply` and `recv_features_reply`. The number of records is
nowhere in a message but in its length, and the fields of an address are in the order of the host. -/

namespace Harry.Transfer

open Harry.Base Harry.Rfp
open Harry.Controller (AddressFamily Connected Interface)

/-- The string at an address. Without an end the memory behind the message would be read. -/
def cString (data : List UInt8) : Option (List UInt8) :=
  if 0 ∈ data then some (data.takeWhile (· ≠ 0)) else none

/-- What `strncpy` stores for a string. -/
def strncpy (src : List UInt8) (n : Nat) : List UInt8 :=
  let s := (src.takeWhile (· ≠ 0)).take n
  s ++ List.replicate (n - s.length) 0

theorem takeWhile_string {s : List UInt8} (hs : 0 ∉ s) (rest : List UInt8) :
    (s ++ 0 :: rest).takeWhile (· ≠ 0) = s := by
  induction s with
  | nil => rfl
  | cons c s ih =>
      obtain ⟨hc, hs⟩ := not_or.mp (List.mem_cons.not.mp hs)
      rw [List.cons_append, List.takeWhile_cons_of_pos (by simpa using Ne.symm hc), ih hs]

theorem zero_notMem_takeWhile (s : List UInt8) : 0 ∉ s.takeWhile (· ≠ 0) := by
  intro h
  have hne := List.all_eq_true.mp List.all_takeWhile 0 h
  simp at hne

theorem cString_append {s : List UInt8} (hs : 0 ∉ s) (rest : List UInt8) : cString (s ++ 0 :: rest) = some s := by
  rw [cString, if_pos (List.mem_append_right _ List.mem_cons_self), takeWhile_string hs]

theorem length_takeWhile_string {s : List UInt8} (hs : 0 ∈ s) : (s.takeWhile (· ≠ 0)).length < s.length := by
  induction s with
  | nil => cases hs
  | cons c s ih =>
      by_cases hc : c = 0
      · subst hc
        exact Nat.succ_pos _
      · have hmem : 0 ∈ s := (List.mem_cons.mp hs).resolve_left (Ne.symm hc)
        rw [List.takeWhile_cons_of_pos (by simpa using hc), List.length_cons, List.length_cons]
        exact Nat.succ_lt_succ (ih hmem)

/-- `AF_INET` and `AF_INET6`. -/
def familyCode : AddressFamily → Nat
  | .inet => 2
  | .inet6 => 10

/-- The bytes of an address that are sent. -/
def addrSize : AddressFamily → Nat
  | .inet => 4
  | .inet6 => 16

/-- An address of a port of the datapath. -/
structure Addr extends Connected where
  length_addr : addr.length = addrSize family

/-- `struct sw_port`. The name has an end. -/
structure SwPort where
  hwName : List UInt8
  portNo : UInt16
  mtu : UInt32
  state : UInt32
  connected : List Addr
  length_hwName : hwName.length = 20
  ends : 0 ∈ hwName

/-- The name as a string. -/
def SwPort.name (p : SwPort) : List UInt8 := p.hwName.takeWhile (· ≠ 0)

/-- The fields of a `struct rfp_phy_port`, with those that the compiler puts between. -/
def phyPort (portNo : Nat) (name : List UInt8) (state mtu : Nat) : List (List UInt8) :=
  [le 2 portNo, name, le 2 0, le 4 state, le 4 mtu]

/-- `fill_port_desc`. -/
def fillPortDesc (p : SwPort) : List (List UInt8) :=
  phyPort (swap 2 p.portNo.toNat) (strncpy p.hwName 20) (swap 4 p.state.toNat) (swap 4 p.mtu.toNat)

/-- `send_features_reply`. -/
def sendFeaturesReply (dpId : UInt64) (xid : UInt32) (portList : List SwPort) : Rfpbuf :=
  .routeflowAllocXid .featuresReply xid
    (le 8 (swap 4 dpId.toNat) ++ portList.flatMap fun p => (fillPortDesc p).flatten)

/-- A `struct rfp_connected_v4` or `struct rfp_connected_v6` that is sent. `pad` is what is in the bytes that the
compiler puts between: the memory is not cleared. -/
structure AddressRecord where
  portNo : UInt16
  address : Addr
  pad : UInt16

/-- The fields of the record; those of the header are not converted. -/
def AddressRecord.fields (r : AddressRecord) : List (List UInt8) :=
  [le 2 r.portNo.toNat, le 2 (familyCode r.address.family), le 2 r.address.prefixlen.toNat, le 2 r.pad.toNat,
    r.address.addr]

/-- The addresses with the number of their port, port after port. -/
def portAddresses (portList : List SwPort) : List (UInt16 × Addr) :=
  portList.flatMap fun p => p.connected.map fun a => (p.portNo, a)

def addressRecords (pads : Nat → UInt16) (portList : List SwPort) : List AddressRecord :=
  (portAddresses portList).mapIdx fun i a => ⟨a.1, a.2, pads i⟩

/-- `send_addresses_reply`. -/
def sendAddressesReply (pads : Nat → UInt16) (xid : UInt32) (portList : List SwPort) : Rfpbuf :=
  .routeflowAllocXid .addressesReply xid ((addressRecords pads portList).flatMap fun r => r.fields.flatten)

/-- The interfaces of a router of the controller, or of the client of a sibling. `portList` is the places of those that
are ports of the router, or that `ospf6_interface_if_add` was called for. -/
structure Ports where
  iflist : List Interface
  portList : List Nat
  deriving DecidableEq

/-- `new_router`. -/
def newRouter : Ports := ⟨[], []⟩

/-- `if_lookup_by_name`. -/
def ifLookupByName (iflist : List Interface) (name : List UInt8) : Option Nat :=
  iflist.findIdx? fun ifp => ifp.name = name

/-- `if_lookup_by_index`. -/
def ifLookupByIndex (iflist : List Interface) (index : UInt32) : Option Nat :=
  iflist.findIdx? fun ifp => ifp.ifindex = index

/-- `if_create`, for a name that is not in the list. A longer one fails the assertion. -/
def ifCreate (iflist : List Interface) (name : List UInt8) : Option (Nat × List Interface) := do
  guard (name.length ≤ 20)
  some (iflist.length, iflist ++ [⟨0, name, 0, 0, []⟩])

/-- `if_get_by_name`. -/
def ifGetByName (iflist : List Interface) (name : List UInt8) : Option (Nat × List Interface) :=
  match ifLookupByName iflist name with
  | some i => some (i, iflist)
  | none => ifCreate iflist name

/-- The number of records that the length of a message has room for behind `offset`. Of a length below `offset` it comes
out so large that the records are not in the message. -/
def recordCount (data : List UInt8) (offset size : Nat) : Option Nat :=
  if headerLength data < offset then none else some ((headerLength data - offset) / size)

/-- What each receiver does with a `struct rfp_phy_port`. -/
def takePhyPort (rpp : List UInt8) (s : Ports) : Option Ports := do
  let portNo ← numberIn rpp 0 2
  let state ← numberIn rpp 24 4
  let mtu ← numberIn rpp 28 4
  let name ← cString (rpp.drop 2)
  let (i, iflist) ← ifGetByName s.iflist name
  some
    { iflist := iflist.modify i fun ifp =>
        { ifp with
          ifindex := UInt32.ofNat (swap 2 portNo)
          state := UInt32.ofNat (swap 4 state)
          mtu := UInt32.ofNat (swap 4 mtu) }
      portList := s.portList ++ [i] }

/-- `router_process_phy_port`. -/
def routerProcessPhyPort (rpp : List UInt8) (rt : Ports) : Option Ports := takePhyPort rpp rt

/-- `router_process_features`, without the request for the addresses at its end. -/
def routerProcessFeatures (rt : Ports) (rrf : List UInt8) : Option Ports := do
  let nPorts ← recordCount rrf 16 32
  eachRecord 32 routerProcessPhyPort nPorts (rrf.drop 16) rt

/-- `recv_features_reply`. -/
def recvFeaturesReply (ctrlClient : Ports) (rrf : List UInt8) : Option Ports := do
  let nPorts ← recordCount rrf 16 32
  eachRecord 32 takePhyPort nPorts (rrf.drop 16) ctrlClient

/-- One address of `router_process_addresses`. Without an interface of that number a null pointer is followed. -/
def addConnected (connected : List UInt8) (family : AddressFamily) (rt : Ports) : Option Ports := do
  let addr ← bytesAt connected 8 (addrSize family)
  let prefixlen ← numberIn connected 4 2
  let ifindex ← numberIn connected 0 2
  let i ← ifLookupByIndex rt.iflist (UInt32.ofNat ifindex)
  some
    { rt with
      iflist := rt.iflist.modify i fun ifp =>
        { ifp with connected := ifp.connected ++ [⟨family, UInt8.ofNat prefixlen, addr⟩] } }

/-- The family that `router_process_addresses` takes a record for. -/
def familyOf (type : Nat) : Option AddressFamily :=
  if type = familyCode .inet then some .inet
  else if type = familyCode .inet6 then some .inet6
  else none

/-- The loop of `router_process_addresses`, with `left` bytes of the message from `connected` on. A record of another
type is looked at again without an end. -/
def processConnected (connected : List UInt8) (left : Nat) (rt : Ports) : Option Ports := do
  let type ← numberIn connected 2 2
  let family ← familyOf type
  let rt ← addConnected connected family rt
  if _h : 8 + addrSize family < left then
    processConnected (connected.drop (8 + addrSize family)) (left - (8 + addrSize family)) rt
  else some rt
termination_by left
decreasing_by omega

/-- `router_process_addresses`. -/
def routerProcessAddresses (rt : Ports) (rra : List UInt8) : Option Ports :=
  processConnected (rra.drop 8) (headerLength rra - 8) rt

/-- The record that `sib_router_send_features_reply` makes of an interface. A longer name would be written over the
fields behind it. -/
def sibPhyPort (ifp : Interface) : Option (List (List UInt8)) := do
  guard (ifp.name.length ≤ 20)
  some (phyPort (swap 2 ifp.ifindex.toNat) (ifp.name ++ List.replicate (20 - ifp.name.length) 0)
    (swap 4 ifp.state.toNat) (swap 4 ifp.mtu.toNat))

/-- `sib_router_send_features_reply`: the messages to the sibling. For a second router the buffer would be written that
has been handed on with the first. -/
def sibRouterSendFeaturesReply (xid : UInt32) : List Ports → Option (List Rfpbuf)
  | [] => some []
  | [rt] => do
      let ifps ← rt.portList.mapM fun i => rt.iflist[i]?
      let rpps ← ifps.mapM sibPhyPort
      some [.routeflowAllocXid .featuresReply xid (le 8 0 ++ rpps.flatMap List.flatten)]
  | _ :: _ :: _ => none

/-- What is sent of a port. -/
structure PortDesc where
  portNo : UInt16
  name : List UInt8
  state : UInt32
  mtu : UInt32
  length_name : name.length ≤ 19
  notMem_name : 0 ∉ name

/-- The record of a port. -/
def PortDesc.fields (d : PortDesc) : List (List UInt8) :=
  phyPort (swap 2 d.portNo.toNat) (d.name ++ List.replicate (20 - d.name.length) 0) (swap 4 d.state.toNat)
    (swap 4 d.mtu.toNat)

/-- The description of a port is stored in an interface. -/
def PortDesc.store (d : PortDesc) (ifp : Interface) : Interface :=
  { ifp with ifindex := d.portNo.toUInt32, state := d.state, mtu := d.mtu }

/-- The interface that is made for a port. -/
def PortDesc.fresh (d : PortDesc) : Interface := ⟨d.portNo.toUInt32, d.name, d.state, d.mtu, []⟩

/-- An interface has number, name, state and MTU of a port. -/
structure Shows (d : PortDesc) (ifp : Interface) : Prop where
  ifindex : ifp.ifindex = d.portNo.toUInt32
  name : ifp.name = d.name
  state : ifp.state = d.state
  mtu : ifp.mtu = d.mtu

def SwPort.desc (p : SwPort) : PortDesc where
  portNo := p.portNo
  name := p.name
  state := p.state
  mtu := p.mtu
  length_name := by
    have hlt := length_takeWhile_string p.ends
    rw [p.length_hwName] at hlt
    exact Nat.le_of_lt_succ hlt
  notMem_name := zero_notMem_takeWhile p.hwName

theorem fillPortDesc_eq (p : SwPort) : fillPortDesc p = p.desc.fields := by
  have hname : p.name.take 20 = p.name := List.take_of_length_le (Nat.le_succ_of_le p.desc.length_name)
  rw [fillPortDesc, strncpy, ← SwPort.name, hname]
  rfl

theorem sibPhyPort_eq {ifp : Interface} {d : PortDesc} (h : Shows d ifp) : sibPhyPort ifp = some d.fields := by
  have hswap : swap 2 d.portNo.toUInt32.toNat = swap 2 d.portNo.toNat := by
    rw [UInt16.toNat_toUInt32]
  rw [sibPhyPort, h.name, h.ifindex, h.state, h.mtu, hswap, guard, if_pos (Nat.le_succ_of_le d.length_name)]
  rfl

theorem length_fields (d : PortDesc) : d.fields.flatten.length = 32 := by
  have hname := d.length_name
  simp only [PortDesc.fields, phyPort, List.length_flatten, List.map_cons, List.map_nil, length_le, List.length_append,
    List.length_replicate, List.sum_cons, List.sum_nil]
  omega

/-- `takePhyPort` on the record of a port. -/
def addPort (s : Ports) (d : PortDesc) : Ports :=
  match ifLookupByName s.iflist d.name with
  | some i => ⟨s.iflist.modify i d.store, s.portList ++ [i]⟩
  | none => ⟨s.iflist ++ [d.fresh], s.portList ++ [s.iflist.length]⟩

theorem modify_append_self {α : Type} (l : List α) (x : α) (f : α → α) : (l ++ [x]).modify l.length f = l ++ [f x] := by
  induction l with
  | nil => rfl
  | cons y l ih => rw [List.cons_append, List.length_cons, List.modify_succ_cons, ih, List.cons_append]

theorem cString_fields (d : PortDesc) (rest : List UInt8) :
    cString ((d.fields.flatten ++ rest).drop 2) = some d.name := by
  obtain ⟨k, hk⟩ : ∃ k, 20 - d.name.length = k + 1 := ⟨19 - d.name.length, by have := d.length_name; omega⟩
  have hdrop : (d.fields.flatten ++ rest).drop 2 = d.name ++ 0 :: (List.replicate k 0 ++
      ([le 2 0, le 4 (swap 4 d.state.toNat), le 4 (swap 4 d.mtu.toNat)].flatten ++ rest)) := by
    rw [PortDesc.fields, phyPort, hk, List.flatten_cons, List.append_assoc, List.drop_left' (length_le _ _),
      List.flatten_cons, List.replicate_succ]
    simp only [List.append_assoc, List.cons_append]
  rw [hdrop, cString_append d.notMem_name]

theorem takePhyPort_fields (d : PortDesc) (rest : List UInt8) (s : Ports) :
    takePhyPort (d.fields.flatten ++ rest) s = some (addPort s d) := by
  have hname : (d.name ++ List.replicate (20 - d.name.length) 0).length = 20 := by
    have hle := d.length_name
    rw [List.length_append, List.length_replicate]
    omega
  have hoff (i : Nat) : (d.fields.take i).flatten.length = (([2, 20, 2, 4, 4] : List Nat).take i).sum := by
    rw [List.length_flatten, List.map_take]
    simp only [PortDesc.fields, phyPort, List.map_cons, List.map_nil, length_le, hname]
  have hportNo := numberIn_flatten d.fields 0 rfl (hoff 0) rest
  have hstate := numberIn_flatten d.fields 3 rfl (hoff 3) rest
  have hmtu := numberIn_flatten d.fields 4 rfl (hoff 4) rest
  rw [Nat.mod_eq_of_lt (swap_lt _ _)] at hportNo hstate hmtu
  simp only [List.take, List.sum_cons, List.sum_nil, Nat.reduceAdd] at hportNo hstate hmtu
  have hportNo' : UInt32.ofNat (swap 2 (swap 2 d.portNo.toNat)) = d.portNo.toUInt32 := by
    rw [swap_swap_of_lt (n := 2) d.portNo.toNat_lt, UInt32.ofNat_uInt16ToNat]
  have hstate' : UInt32.ofNat (swap 4 (swap 4 d.state.toNat)) = d.state := by
    rw [swap_swap_of_lt (n := 4) d.state.toNat_lt, UInt32.ofNat_toNat]
  have hmtu' : UInt32.ofNat (swap 4 (swap 4 d.mtu.toNat)) = d.mtu := by
    rw [swap_swap_of_lt (n := 4) d.mtu.toNat_lt, UInt32.ofNat_toNat]
  rw [takePhyPort]
  simp only [hportNo, hstate, hmtu, cString_fields, Option.bind_eq_bind, Option.bind_some, hportNo', hstate', hmtu']
  rw [ifGetByName, addPort]
  cases ifLookupByName s.iflist d.name with
  | some i => rfl
  | none =>
      have hle : d.name.length ≤ 20 := Nat.le_succ_of_le d.length_name
      simp only [ifCreate, guard, if_pos hle, Option.bind_eq_bind, Option.pure_def, Option.bind_some]
      rw [modify_append_self]
      rfl

section Ports

variable {s s' : Ports}

theorem addPort_new {d : PortDesc} (hnew : ∀ ifp ∈ s.iflist, ifp.name ≠ d.name) :
    addPort s d = ⟨s.iflist ++ [d.fresh], s.portList ++ [s.iflist.length]⟩ := by
  have hnone : ifLookupByName s.iflist d.name = none := by
    rw [ifLookupByName, List.findIdx?_eq_none_iff]
    intro ifp hifp
    exact decide_eq_false (hnew ifp hifp)
  rw [addPort, hnone]

/-- A router that has no interfaces yet has those of the ports then. -/
theorem foldl_addPort_newRouter (ds : List PortDesc) (hnames : (ds.map (·.name)).Nodup) :
    ds.foldl addPort newRouter = ⟨ds.map PortDesc.fresh, List.range ds.length⟩ := by
  induction ds using List.reverseRecOn with
  | nil => rfl
  | append_singleton ds d ih =>
      rw [List.map_append, List.nodup_append] at hnames
      obtain ⟨hbefore, -, hdisjoint⟩ := hnames
      have hnew : ∀ ifp ∈ ds.map PortDesc.fresh, ifp.name ≠ d.name := by
        intro ifp hifp
        obtain ⟨e, he, rfl⟩ := List.mem_map.mp hifp
        exact hdisjoint e.name (List.mem_map_of_mem he) d.name (List.mem_map_of_mem (List.mem_singleton_self d))
      rw [List.foldl_append, ih hbefore, List.foldl_cons, List.foldl_nil, addPort_new hnew, List.map_append,
        List.length_map, List.length_append, List.length_singleton, List.range_succ]
      rfl

/-- The interface of a port: it shows the port now, and no other is changed. -/
theorem addPort_spec (s : Ports) (d : PortDesc) : ∃ j, (addPort s d).portList = s.portList ++ [j] ∧
    (∃ ifp, (addPort s d).iflist[j]? = some ifp ∧ Shows d ifp) ∧
    (∀ i, i ≠ j → (addPort s d).iflist[i]? = s.iflist[i]?) ∧ ∀ ifp, s.iflist[j]? = some ifp → ifp.name = d.name := by
  rw [addPort]
  cases hfind : ifLookupByName s.iflist d.name with
  | some j =>
      obtain ⟨hj, hname, -⟩ := List.findIdx?_eq_some_iff_getElem.mp hfind
      have hname : s.iflist[j].name = d.name := of_decide_eq_true hname
      have hget : s.iflist[j]? = some s.iflist[j] := List.getElem?_eq_getElem hj
      refine ⟨j, rfl, ⟨d.store s.iflist[j], ?_, rfl, hname, rfl, rfl⟩, ?_, ?_⟩
      · rw [List.getElem?_modify_eq, hget, Option.map_eq_map, Option.map_some]
      · intro i hi
        exact List.getElem?_modify_ne _ _ (Ne.symm hi)
      · rw [hget]
        rintro ifp ⟨⟩
        exact hname
  | none =>
      have hend : s.iflist[s.iflist.length]? = none := List.getElem?_eq_none (Nat.le_refl _)
      refine ⟨s.iflist.length, rfl, ⟨d.fresh, List.getElem?_concat_length, rfl, rfl, rfl, rfl⟩, ?_, ?_⟩
      · intro i hi
        rcases Nat.lt_or_gt_of_ne hi with hlt | hgt
        · exact List.getElem?_append_left hlt
        · have hlen : (s.iflist ++ [d.fresh]).length ≤ i := by
            rw [List.length_append, List.length_singleton]
            exact hgt
          rw [List.getElem?_eq_none hlen, List.getElem?_eq_none (Nat.le_of_lt hgt)]
      · rw [hend]
        rintro ifp ⟨⟩

/-- Ports have been received: each has its interface, and no other interface is changed. -/
def Received (s : Ports) (ds : List PortDesc) (s' : Ports) : Prop :=
  ∃ added, s'.portList = s.portList ++ added ∧
    List.Forall₂ (fun d i => ∃ ifp, s'.iflist[i]? = some ifp ∧ Shows d ifp) ds added ∧
    ∀ i ∉ added, s'.iflist[i]? = s.iflist[i]?

theorem Received.addPort {ds : List PortDesc} {d : PortDesc} (h : Received s ds s') (hnew : ∀ e ∈ ds, e.name ≠ d.name) :
    Received s (ds ++ [d]) (addPort s' d) := by
  obtain ⟨added, hports, hshow, hkeep⟩ := h
  obtain ⟨j, hports', hshow', hkeep', hname⟩ := addPort_spec s' d
  refine ⟨added ++ [j], ?_, List.rel_append ?_ (.cons hshow' .nil), ?_⟩
  · rw [hports', hports, List.append_assoc]
  · refine ((List.forall₂_and_left _ _).mpr ⟨hnew, hshow⟩).imp ?_
    -- an interface of another name is not that of the new port
    rintro e i ⟨hne, ifp, hget, hshows⟩
    have hi : i ≠ j := by
      rintro rfl
      exact hne (hshows.name.symm.trans (hname ifp hget))
    exact ⟨ifp, (hkeep' i hi).trans hget, hshows⟩
  · intro i hi
    obtain ⟨hi, hj⟩ := not_or.mp (List.mem_append.not.mp hi)
    rw [hkeep' i (List.mem_singleton.not.mp hj), hkeep i hi]

theorem received_foldl (s : Ports) (ds : List PortDesc) (hnames : (ds.map (·.name)).Nodup) :
    Received s ds (ds.foldl addPort s) := by
  induction ds using List.reverseRecOn with
  | nil => exact ⟨[], (List.append_nil _).symm, .nil, fun _ _ => rfl⟩
  | append_singleton ds d ih =>
      rw [List.map_append, List.nodup_append] at hnames
      obtain ⟨hbefore, -, hdisjoint⟩ := hnames
      rw [List.foldl_append, List.foldl_cons, List.foldl_nil]
      refine (ih hbefore).addPort fun e he => ?_
      exact hdisjoint e.name (List.mem_map_of_mem he) d.name (List.mem_map_of_mem (List.mem_singleton_self d))

end Ports

/-! ### The messages with the ports -/

theorem headerLength_routeflowAllocXid (type : RfpType) (xid : UInt32) (body : List UInt8) :
    headerLength (Rfpbuf.routeflowAllocXid type xid body).data = (8 + body.length) % 2 ^ 16 := by
  simp only [headerLength, Rfpbuf.routeflowAllocXid, htons, List.cons_append, List.nil_append, List.getD_cons_succ,
    List.getD_cons_zero, UInt8.toNat_ofNat']
  omega

theorem length_routeflowAllocXid (type : RfpType) (xid : UInt32) (body : List UInt8) :
    (Rfpbuf.routeflowAllocXid type xid body).data.length = 8 + body.length := by
  simp only [Rfpbuf.routeflowAllocXid, htons, htonl, List.length_append, List.length_cons, List.length_nil]

theorem drop_routeflowAllocXid (type : RfpType) (xid : UInt32) (body : List UInt8) :
    (Rfpbuf.routeflowAllocXid type xid body).data.drop 8 = body := rfl

/-- A message with the descriptions of ports. -/
def featuresReply (dpId : Nat) (xid : UInt32) (ds : List PortDesc) : Rfpbuf :=
  .routeflowAllocXid .featuresReply xid (le 8 dpId ++ ds.flatMap fun d => d.fields.flatten)

theorem sendFeaturesReply_eq (dpId : UInt64) (xid : UInt32) (portList : List SwPort) :
    sendFeaturesReply dpId xid portList = featuresReply (swap 4 dpId.toNat) xid (portList.map SwPort.desc) := by
  rw [sendFeaturesReply, featuresReply, List.flatMap_map]
  simp only [fillPortDesc_eq]

theorem length_featuresReply (dpId : Nat) (xid : UInt32) (ds : List PortDesc) :
    (featuresReply dpId xid ds).data.length = 16 + 32 * ds.length := by
  rw [featuresReply, length_routeflowAllocXid, List.length_append, length_le, length_flatMap_records length_fields]
  omega

theorem recvFeaturesReply_featuresReply {dpId : Nat} {xid : UInt32} {ds : List PortDesc}
    (hlen : 16 + 32 * ds.length < 2 ^ 16) (s : Ports) :
    recvFeaturesReply s (featuresReply dpId xid ds).data = some (ds.foldl addPort s) := by
  have hheader : headerLength (featuresReply dpId xid ds).data = 16 + 32 * ds.length := by
    have hwhole := length_featuresReply dpId xid ds
    rw [featuresReply, length_routeflowAllocXid] at hwhole
    rw [featuresReply, headerLength_routeflowAllocXid, hwhole, Nat.mod_eq_of_lt hlen]
  have hcount : recordCount (featuresReply dpId xid ds).data 16 32 = some ds.length := by
    rw [recordCount, hheader, if_neg (by omega), Nat.add_sub_cancel_left, Nat.mul_div_cancel_left _ (by decide)]
  have hdrop : (featuresReply dpId xid ds).data.drop 16 = ds.flatMap fun d => d.fields.flatten := by
    calc (featuresReply dpId xid ds).data.drop 16 = ((featuresReply dpId xid ds).data.drop 8).drop 8 := by
          rw [List.drop_drop]
      _ = (le 8 dpId ++ ds.flatMap fun d => d.fields.flatten).drop 8 := rfl
      _ = ds.flatMap fun d => d.fields.flatten := List.drop_left' (length_le 8 dpId)
  have hrun := eachRecord_flatMap (J := fun _ => True) length_fields (fun _ _ _ => trivial)
    (fun s d rest _ => takePhyPort_fields d rest s) ds [] (s := s) trivial
  rw [List.append_nil] at hrun
  rw [recvFeaturesReply, hcount, hdrop, Option.bind_eq_bind, Option.bind_some, hrun]

theorem sibRouterSendFeaturesReply_eq {rt : Ports} {ds : List PortDesc} (xid : UInt32)
    (h : List.Forall₂ (fun d i => ∃ ifp, rt.iflist[i]? = some ifp ∧ Shows d ifp) ds rt.portList) :
    sibRouterSendFeaturesReply xid [rt] = some [featuresReply 0 xid ds] := by
  have hrecords : ∃ ifps, (rt.portList.mapM fun i => rt.iflist[i]?) = some ifps ∧
      ifps.mapM sibPhyPort = some (ds.map PortDesc.fields) := by
    obtain ⟨iflist, portList⟩ := rt
    dsimp only at h ⊢
    induction h with
    | nil => exact ⟨[], rfl, rfl⟩
    | cons hfirst _ ih =>
        obtain ⟨ifp, hget, hshows⟩ := hfirst
        obtain ⟨ifps, hifps, hfields⟩ := ih
        refine ⟨ifp :: ifps, ?_, ?_⟩
        · rw [List.mapM_cons, hget, hifps]
          rfl
        · rw [List.mapM_cons, sibPhyPort_eq hshows, hfields]
          rfl
  obtain ⟨ifps, hifps, hfields⟩ := hrecords
  rw [sibRouterSendFeaturesReply, hifps, Option.bind_eq_bind, Option.bind_some, hfields, Option.bind_eq_bind,
    Option.bind_some, featuresReply, List.flatMap_map]

/-- An address is put behind those of the interface with the number. -/
def addAddress (iflist : List Interface) (a : UInt16 × Addr) : List Interface :=
  iflist.map fun ifp =>
    if ifp.ifindex = a.1.toUInt32 then { ifp with connected := ifp.connected ++ [a.2.toConnected] } else ifp

theorem ifindex_addAddress (iflist : List Interface) (a : UInt16 × Addr) :
    (addAddress iflist a).map (·.ifindex) = iflist.map (·.ifindex) := by
  rw [addAddress, List.map_map]
  apply List.map_congr_left
  intro ifp _
  rw [Function.comp_apply]
  split <;> rfl

/-- Of distinct numbers the one that is found is the only one. -/
theorem modify_eq_map {iflist : List Interface} {x : UInt32} {i : Nat} (hnumbers : (iflist.map (·.ifindex)).Nodup)
    (hfind : ifLookupByIndex iflist x = some i) (f : Interface → Interface) :
    iflist.modify i f = iflist.map fun ifp => if ifp.ifindex = x then f ifp else ifp := by
  obtain ⟨hi, hx, -⟩ := List.findIdx?_eq_some_iff_getElem.mp hfind
  have hx : iflist[i].ifindex = x := of_decide_eq_true hx
  apply List.ext_getElem
  · rw [List.length_modify, List.length_map]
  · intro k hk _
    rw [List.length_modify] at hk
    have honly : iflist[k].ifindex = x ↔ i = k := by
      constructor
      · intro hkx
        have hk' : k < (iflist.map (·.ifindex)).length := by rwa [List.length_map]
        have hi' : i < (iflist.map (·.ifindex)).length := by rwa [List.length_map]
        have hsame : (iflist.map (·.ifindex))[i] = (iflist.map (·.ifindex))[k] := by
          rw [List.getElem_map, List.getElem_map, hx, hkx]
        exact (List.Nodup.getElem_inj_iff hnumbers).mp hsame
      · rintro rfl
        exact hx
    rw [List.getElem_modify, List.getElem_map]
    by_cases hik : i = k
    · rw [if_pos hik, if_pos (honly.mpr hik)]
    · rw [if_neg hik, if_neg (honly.not.mpr hik)]

theorem ifLookupByIndex_of_mem {iflist : List Interface} {x : UInt32} (h : x ∈ iflist.map (·.ifindex)) :
    ∃ i, ifLookupByIndex iflist x = some i := by
  obtain ⟨ifp, hifp, hx⟩ := List.mem_map.mp h
  rw [← Option.isSome_iff_exists, ifLookupByIndex, List.findIdx?_isSome]
  exact List.any_eq_true.mpr ⟨ifp, hifp, decide_eq_true hx⟩

theorem length_addressRecord (r : AddressRecord) : r.fields.flatten.length = 8 + addrSize r.address.family := by
  simp only [AddressRecord.fields, List.length_flatten, List.map_cons, List.map_nil, length_le, r.address.length_addr,
    List.sum_cons, List.sum_nil]
  omega

theorem type_addressRecord (r : AddressRecord) (rest : List UInt8) :
    numberIn (r.fields.flatten ++ rest) 2 2 = some (familyCode r.address.family) := by
  have htype : numberIn (r.fields.flatten ++ rest) 2 2 = some (familyCode r.address.family % 2 ^ (8 * 2)) :=
    numberIn_flatten r.fields 1 rfl rfl rest
  rw [htype]
  cases r.address.family <;> rfl

theorem addConnected_fields (r : AddressRecord) (rest : List UInt8) {rt : Ports}
    (hnumbers : (rt.iflist.map (·.ifindex)).Nodup) (hport : r.portNo.toUInt32 ∈ rt.iflist.map (·.ifindex)) :
    addConnected (r.fields.flatten ++ rest) r.address.family rt =
      some { rt with iflist := addAddress rt.iflist (r.portNo, r.address) } := by
  have haddr : bytesAt (r.fields.flatten ++ rest) 8 (addrSize r.address.family) = some r.address.addr :=
    bytesAt_flatten r.fields 4 rfl rfl r.address.length_addr rest
  have hprefixlen : numberIn (r.fields.flatten ++ rest) 4 2 = some (r.address.prefixlen.toNat % 2 ^ (8 * 2)) :=
    numberIn_flatten r.fields 2 rfl rfl rest
  have hifindex : numberIn (r.fields.flatten ++ rest) 0 2 = some (r.portNo.toNat % 2 ^ (8 * 2)) :=
    numberIn_flatten r.fields 0 rfl rfl rest
  have hlow : r.address.prefixlen.toNat % 2 ^ (8 * 2) = r.address.prefixlen.toNat :=
    Nat.mod_eq_of_lt (Nat.lt_trans r.address.prefixlen.toNat_lt (by decide))
  have hno : r.portNo.toNat % 2 ^ (8 * 2) = r.portNo.toNat := Nat.mod_eq_of_lt r.portNo.toNat_lt
  obtain ⟨i, hi⟩ := ifLookupByIndex_of_mem hport
  rw [addConnected]
  simp only [haddr, hprefixlen, hifindex, hlow, hno, UInt32.ofNat_uInt16ToNat, UInt8.ofNat_toNat, hi,
    Option.bind_eq_bind, Option.bind_some]
  rw [modify_eq_map hnumbers hi, addAddress]

def AddressRecord.pair (r : AddressRecord) : UInt16 × Addr := (r.portNo, r.address)

/-- One pass of the loop. -/
theorem processConnected_fields (r : AddressRecord) (rest : List UInt8) (left : Nat) {rt : Ports}
    (hnumbers : (rt.iflist.map (·.ifindex)).Nodup) (hport : r.portNo.toUInt32 ∈ rt.iflist.map (·.ifindex)) :
    processConnected (r.fields.flatten ++ rest) left rt =
      if 8 + addrSize r.address.family < left then
        processConnected rest (left - (8 + addrSize r.address.family))
          { rt with iflist := addAddress rt.iflist r.pair }
      else some { rt with iflist := addAddress rt.iflist r.pair } := by
  have hfamily : familyOf (familyCode r.address.family) = some r.address.family := by
    cases r.address.family <;> rfl
  have hdrop : (r.fields.flatten ++ rest).drop (8 + addrSize r.address.family) = rest :=
    List.drop_left' (length_addressRecord r)
  rw [processConnected, type_addressRecord]
  simp only [Option.bind_eq_bind, Option.bind_some, hfamily, addConnected_fields r rest hnumbers hport, hdrop]
  rfl

/-- The loop goes from one record to the next, whatever their sizes, and ends with the last. -/
theorem processConnected_records (r : AddressRecord) (rs : List AddressRecord) {rt : Ports}
    (hnumbers : (rt.iflist.map (·.ifindex)).Nodup)
    (hports : ∀ r' ∈ r :: rs, r'.portNo.toUInt32 ∈ rt.iflist.map (·.ifindex)) :
    processConnected ((r :: rs).flatMap fun r => r.fields.flatten)
        ((r :: rs).flatMap fun r => r.fields.flatten).length rt =
      some { rt with iflist := ((r :: rs).map AddressRecord.pair).foldl addAddress rt.iflist } := by
  induction rs generalizing r rt with
  | nil =>
      rw [List.flatMap_cons, List.flatMap_nil, List.append_nil, length_addressRecord,
        ← List.append_nil r.fields.flatten, processConnected_fields r [] _ hnumbers (hports r List.mem_cons_self),
        if_neg (Nat.lt_irrefl _)]
      rfl
  | cons r' rs ih =>
      obtain ⟨later, hlater⟩ : ∃ later, later = (r' :: rs).flatMap fun r => r.fields.flatten := ⟨_, rfl⟩
      have hlen : ((r :: r' :: rs).flatMap fun r => r.fields.flatten).length =
          8 + addrSize r.address.family + later.length := by
        rw [List.flatMap_cons, List.length_append, length_addressRecord, hlater]
      have hpos : 0 < later.length := by
        rw [hlater, List.flatMap_cons, List.length_append, length_addressRecord]
        omega
      have hkeep : ((addAddress rt.iflist r.pair).map (·.ifindex)) = rt.iflist.map (·.ifindex) :=
        ifindex_addAddress rt.iflist r.pair
      have hih : processConnected later later.length { rt with iflist := addAddress rt.iflist r.pair } =
          some { rt with
            iflist := ((r' :: rs).map AddressRecord.pair).foldl addAddress (addAddress rt.iflist r.pair) } := by
        rw [hlater]
        exact ih r' (by rwa [hkeep]) fun r'' hr'' => hkeep ▸ hports r'' (List.mem_cons_of_mem r hr'')
      rw [hlen, List.flatMap_cons, ← hlater, processConnected_fields r later _ hnumbers (hports r List.mem_cons_self),
        if_pos (Nat.lt_add_of_pos_right hpos), Nat.add_sub_cancel_left]
      exact hih

/-- What is added to each interface in a run. -/
theorem foldl_addAddress (as : List (UInt16 × Addr)) (iflist : List Interface) :
    as.foldl addAddress iflist = iflist.map fun ifp =>
      { ifp with connected :=
          ifp.connected ++ (as.filter fun a => ifp.ifindex = a.1.toUInt32).map fun a => a.2.toConnected } := by
  induction as generalizing iflist with
  | nil =>
      rw [List.foldl_nil, eq_comm]
      apply List.map_id''
      intro ifp
      rw [List.filter_nil, List.map_nil, List.append_nil]
  | cons a as ih =>
      rw [List.foldl_cons, ih, addAddress, List.map_map]
      apply List.map_congr_left
      intro ifp _
      rw [Function.comp_apply]
      by_cases ha : ifp.ifindex = a.1.toUInt32
      · rw [if_pos ha, List.filter_cons_of_pos (by simpa using ha), List.map_cons, List.append_assoc,
          List.singleton_append]
      · rw [if_neg ha, List.filter_cons_of_neg (by simpa using ha)]

theorem pair_addressRecords (pads : Nat → UInt16) (portList : List SwPort) :
    (addressRecords pads portList).map AddressRecord.pair = portAddresses portList := by
  apply List.ext_getElem?
  intro i
  rw [addressRecords, List.getElem?_map, List.getElem?_mapIdx]
  cases (portAddresses portList)[i]? <;> rfl

theorem portAddresses_cons (p : SwPort) (portList : List SwPort) :
    portAddresses (p :: portList) = p.connected.map (fun a => (p.portNo, a)) ++ portAddresses portList :=
  List.flatMap_cons

theorem portNo_of_mem {portList : List SwPort} {a : UInt16 × Addr} (h : a ∈ portAddresses portList) :
    a.1 ∈ portList.map (·.portNo) := by
  obtain ⟨p, hp, ha⟩ := List.mem_flatMap.mp h
  obtain ⟨_, -, rfl⟩ := List.mem_map.mp ha
  exact List.mem_map_of_mem hp

/-- The addresses with the number of a port are its own, in their order. -/
theorem filter_portAddresses {portList : List SwPort} (hnumbers : (portList.map (·.portNo)).Nodup) {p : SwPort}
    (hp : p ∈ portList) : (portAddresses portList).filter (fun a => p.portNo.toUInt32 = a.1.toUInt32) =
      p.connected.map fun a => (p.portNo, a) := by
  induction portList with
  | nil => cases hp
  | cons q portList ih =>
      rw [List.map_cons, List.nodup_cons] at hnumbers
      obtain ⟨hq, hnumbers⟩ := hnumbers
      rw [portAddresses_cons, List.filter_append]
      rcases List.mem_cons.mp hp with rfl | hp
      · have hown : (p.connected.map fun a => (p.portNo, a)).filter (fun a => p.portNo.toUInt32 = a.1.toUInt32) =
            p.connected.map fun a => (p.portNo, a) := by
          rw [List.filter_eq_self]
          intro a ha
          obtain ⟨_, -, rfl⟩ := List.mem_map.mp ha
          exact decide_eq_true rfl
        have hothers : (portAddresses portList).filter (fun a => p.portNo.toUInt32 = a.1.toUInt32) = [] := by
          rw [List.filter_eq_nil_iff]
          intro a ha hsame
          have hno : p.portNo = a.1 := UInt16.toUInt32_inj.mp (of_decide_eq_true hsame)
          exact hq (hno ▸ portNo_of_mem ha)
        rw [hown, hothers, List.append_nil]
      · have hne : p.portNo ≠ q.portNo := fun h => hq (h ▸ List.mem_map_of_mem hp)
        have hnone : (q.connected.map fun a => (q.portNo, a)).filter (fun a => p.portNo.toUInt32 = a.1.toUInt32) =
            [] := by
          rw [List.filter_eq_nil_iff]
          intro a ha hsame
          obtain ⟨_, -, rfl⟩ := List.mem_map.mp ha
          exact hne (UInt16.toUInt32_inj.mp (of_decide_eq_true hsame))
        rw [hnone, List.nil_append, ih hnumbers hp]

/-- A port of the datapath as the controller keeps it. -/
def SwPort.interface (p : SwPort) : Interface :=
  ⟨p.portNo.toUInt32, p.name, p.state, p.mtu, p.connected.map fun a => a.toConnected⟩

/-- The addresses arrive at the interfaces of the ports. -/
theorem foldl_addAddress_ports {portList : List SwPort} (hnumbers : (portList.map (·.portNo)).Nodup) :
    (portAddresses portList).foldl addAddress ((portList.map SwPort.desc).map PortDesc.fresh) =
      portList.map SwPort.interface := by
  rw [foldl_addAddress, List.map_map, List.map_map]
  apply List.map_congr_left
  intro p hp
  have hown := filter_portAddresses hnumbers hp
  show Interface.mk p.portNo.toUInt32 p.name p.state p.mtu
    ([] ++ ((portAddresses portList).filter fun a => p.portNo.toUInt32 = a.1.toUInt32).map fun a => a.2.toConnected) = _
  rw [hown, List.map_map]
  rfl

theorem routerProcessFeatures_sendFeaturesReply {portList : List SwPort} (hnames : (portList.map SwPort.name).Nodup)
    (dpId : UInt64) (xid : UInt32) (hlen : (sendFeaturesReply dpId xid portList).data.length < 2 ^ 16) :
    routerProcessFeatures newRouter (sendFeaturesReply dpId xid portList).data =
      some ⟨(portList.map SwPort.desc).map PortDesc.fresh, List.range portList.length⟩ := by
  rw [sendFeaturesReply_eq, length_featuresReply] at hlen
  rw [sendFeaturesReply_eq]
  have hnames' : ((portList.map SwPort.desc).map (·.name)).Nodup := by
    rw [List.map_map]
    exact hnames
  calc routerProcessFeatures newRouter (featuresReply (swap 4 dpId.toNat) xid (portList.map SwPort.desc)).data =
        recvFeaturesReply newRouter (featuresReply (swap 4 dpId.toNat) xid (portList.map SwPort.desc)).data := rfl
    _ = some ((portList.map SwPort.desc).foldl addPort newRouter) := recvFeaturesReply_featuresReply hlen newRouter
    _ = _ := by rw [foldl_addPort_newRouter _ hnames', List.length_map]

theorem routerProcessAddresses_sendAddressesReply {portList : List SwPort}
    (hnumbers : (portList.map (·.portNo)).Nodup) (hsome : ∃ p ∈ portList, p.connected ≠ []) (pads : Nat → UInt16)
    (xid : UInt32) (hlen : (sendAddressesReply pads xid portList).data.length < 2 ^ 16) (places : List Nat) :
    routerProcessAddresses ⟨(portList.map SwPort.desc).map PortDesc.fresh, places⟩
        (sendAddressesReply pads xid portList).data =
      some ⟨portList.map SwPort.interface, places⟩ := by
  have hindex : ((portList.map SwPort.desc).map PortDesc.fresh).map (·.ifindex) =
      (portList.map (·.portNo)).map UInt16.toUInt32 := by
    rw [List.map_map, List.map_map, List.map_map]
    rfl
  have hdistinct : (((portList.map SwPort.desc).map PortDesc.fresh).map (·.ifindex)).Nodup := by
    rw [hindex]
    exact hnumbers.map fun _ _ h => UInt16.toUInt32_inj.mp h
  have hports : ∀ r ∈ addressRecords pads portList,
      r.portNo.toUInt32 ∈ ((portList.map SwPort.desc).map PortDesc.fresh).map (·.ifindex) := by
    intro r hr
    have hpair : r.pair ∈ portAddresses portList := pair_addressRecords pads portList ▸ List.mem_map_of_mem hr
    rw [hindex]
    exact List.mem_map_of_mem (portNo_of_mem hpair)
  have hrecords : addressRecords pads portList ≠ [] := by
    intro hnil
    obtain ⟨p, hp, hconnected⟩ := hsome
    obtain ⟨a, ha⟩ := List.exists_mem_of_ne_nil _ hconnected
    have hmem : (p.portNo, a) ∈ portAddresses portList :=
      List.mem_flatMap.mpr ⟨p, hp, List.mem_map_of_mem ha⟩
    rw [← pair_addressRecords pads, hnil] at hmem
    cases hmem
  have hrun : (addressRecords pads portList).flatMap (fun r => r.fields.flatten) =
      (sendAddressesReply pads xid portList).data.drop 8 := rfl
  have hleft : headerLength (sendAddressesReply pads xid portList).data - 8 =
      ((addressRecords pads portList).flatMap fun r => r.fields.flatten).length := by
    rw [sendAddressesReply, length_routeflowAllocXid] at hlen
    rw [sendAddressesReply, headerLength_routeflowAllocXid, Nat.mod_eq_of_lt hlen, Nat.add_sub_cancel_left]
  rw [routerProcessAddresses, ← hrun, hleft, ← foldl_addAddress_ports hnumbers, ← pair_addressRecords pads]
  cases hcases : addressRecords pads portList with
  | nil => exact absurd hcases hrecords
  | cons r rs =>
      rw [hcases] at hports
      rw [processConnected_records r rs hdistinct hports]

/-- The ports and the addresses of a datapath arrive at the controller, and from there the ports at a sibling. -/
theorem ports_transferred (portList : List SwPort) (hnames : (portList.map SwPort.name).Nodup)
    (hnumbers : (portList.map (·.portNo)).Nodup) (haddresses : ∃ p ∈ portList, p.connected ≠ [])
    (dpId : UInt64) (pads : Nat → UInt16) (xid xid' xid'' : UInt32)
    (hfeatures : (sendFeaturesReply dpId xid portList).data.length < 2 ^ 16)
    (hlength : (sendAddressesReply pads xid' portList).data.length < 2 ^ 16) :
    ∃ rt rt' reply, routerProcessFeatures newRouter (sendFeaturesReply dpId xid portList).data = some rt ∧
      routerProcessAddresses rt (sendAddressesReply pads xid' portList).data = some rt' ∧
      rt' = ⟨portList.map SwPort.interface, List.range portList.length⟩ ∧
      sibRouterSendFeaturesReply xid'' [rt'] = some [reply] ∧
      ∀ ctrlClient, ∃ ctrlClient', recvFeaturesReply ctrlClient reply.data = some ctrlClient' ∧
        Received ctrlClient (portList.map SwPort.desc) ctrlClient' := by
  have hcount : 16 + 32 * (portList.map SwPort.desc).length < 2 ^ 16 := by
    rwa [sendFeaturesReply_eq, length_featuresReply] at hfeatures
  have hnames' : ((portList.map SwPort.desc).map (·.name)).Nodup := by
    rw [List.map_map]
    exact hnames
  have hshow : List.Forall₂ (fun d i => ∃ ifp, (portList.map SwPort.interface)[i]? = some ifp ∧ Shows d ifp)
      (portList.map SwPort.desc) (List.range portList.length) := by
    rw [List.forall₂_iff_get]
    refine ⟨by rw [List.length_map, List.length_range], fun i hi hi' => ?_⟩
    have hp : i < portList.length := by rwa [List.length_map] at hi
    refine ⟨portList[i].interface, ?_, ?_⟩
    · rw [List.get_eq_getElem, List.getElem_range, List.getElem?_map, List.getElem?_eq_getElem hp, Option.map_some]
    · rw [List.get_eq_getElem, List.getElem_map]
      exact ⟨rfl, rfl, rfl, rfl⟩
  refine ⟨_, _, featuresReply 0 xid'' (portList.map SwPort.desc),
    routerProcessFeatures_sendFeaturesReply hnames dpId xid hfeatures,
    routerProcessAddresses_sendAddressesReply hnumbers haddresses pads xid' hlength _, rfl,
    sibRouterSendFeaturesReply_eq xid'' hshow, fun ctrlClient => ?_⟩
  exact ⟨_, recvFeaturesReply_featuresReply hcount ctrlClient, received_foldl ctrlClient _ hnames'⟩

/-- An Ethernet port that is up. -/
def portEth (digit : UInt8) (portNo : UInt16) (connected : List Addr) : SwPort where
  hwName := [101, 116, 104, digit] ++ List.replicate 16 0
  portNo := portNo
  mtu := 1500
  state := 512
  connected := connected
  length_hwName := rfl
  ends := List.mem_append_right _ (List.mem_replicate.mpr ⟨by decide, rfl⟩)

/-- Two ports, of which one has an address of each family. -/
def twoPorts : List SwPort :=
  [portEth 48 2 [⟨⟨.inet6, 64, List.replicate 16 254⟩, rfl⟩, ⟨⟨.inet, 24, [10, 0, 0, 1]⟩, rfl⟩], portEth 49 3 []]

theorem ports_transferred_two : ∃ rt rt' reply,
    routerProcessFeatures newRouter (sendFeaturesReply 1 7 twoPorts).data = some rt ∧
      routerProcessAddresses rt (sendAddressesReply (fun _ => 0xabcd) 8 twoPorts).data = some rt' ∧
      rt' = ⟨twoPorts.map SwPort.interface, List.range twoPorts.length⟩ ∧
      sibRouterSendFeaturesReply 9 [rt'] = some [reply] ∧
      ∀ ctrlClient, ∃ ctrlClient', recvFeaturesReply ctrlClient reply.data = some ctrlClient' ∧
        Received ctrlClient (twoPorts.map SwPort.desc) ctrlClient' :=
  ports_transferred twoPorts (by decide) (by decide) ⟨_, List.mem_cons_self, List.cons_ne_nil _ _⟩ 1 (fun _ => 0xabcd)
    7 8 9 (by decide) (by decide)

end Harry.Transfer
