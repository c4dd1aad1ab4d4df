import Mathlib.Data.List.Forall2
import Mathlib.Tactic.IntervalCases
import Harry.BaseBits
import Harry.PortTransfer
import Harry.RouteNode

/-! The IPv4 routes of a datapath on their way to the controller: `send_stats_routes_reply` writes a record for each,
`router_process_stats_routes` reads the records and adds an entry for each to the table of the controller. Both sides
convert the fields between host and network order, each with a function for a width of its own choice. -/

namespace Harry.Transfer

open Harry.Base Harry.Rfp Harry.Table

/-- `struct prefix_ipv4`. -/
structure PrefixIpv4 where
  prefixlen : UInt8
  addr : List UInt8
  deriving DecidableEq

/-- `struct route_ipv4`, as far as it is sent or added. -/
structure RouteIpv4 where
  type : Int
  flags : Int
  p : PrefixIpv4
  vrfId : UInt32
  metric : UInt32
  distance : UInt8
  deriving DecidableEq

/-- A route of a datapath. -/
structure DpRoute extends RouteIpv4 where
  length_addr : p.addr.length = 4
  prefixlen_le : p.prefixlen.toNat ≤ 32

/-- `struct rib`; `table` is an `int` there, with the same bits. -/
structure RibEntry where
  type : Int
  table : UInt32
  metric : UInt32
  distance : UInt8
  flags : UInt8
  deriving DecidableEq

/-- The table `AFI_IP`, `SAFI_UNICAST` of the first VRF; an entry is linked to the head of the list of its node. -/
abbrev RibTable := RouteTable (List RibEntry)

/-- `fill_route_desc`: the fields of a `struct rfp_route`, with those that the compiler puts between. Where the function
has another width than the field, the low bytes are stored. -/
def fillRouteDesc (r : RouteIpv4) : List (List UInt8) :=
  [le 2 (swap 2 (r.type % 2 ^ 16).toNat), le 2 (swap 2 (r.flags % 2 ^ 16).toNat), le 2 (swap 2 r.p.prefixlen.toNat),
    le 2 0, r.p.addr, le 4 0, le 2 (swap 4 r.distance.toNat), le 2 0, le 4 (swap 2 r.metric.toNat),
    le 4 (swap 4 r.vrfId.toNat)]

/-- `send_stats_routes_reply`. -/
def sendStatsRoutesReply (xid : UInt32) (routes : List DpRoute) : Rfpbuf :=
  .routeflowAllocXid .statsRoutesReply xid (routes.flatMap fun r => (fillRouteDesc r.toRouteIpv4).flatten)

def maskbit : List UInt8 := [0x00, 0x80, 0xc0, 0xe0, 0xf0, 0xf8, 0xfc, 0xfe, 0xff]

/-- `apply_mask_ipv4`. -/
def applyMaskIpv4 (p : PrefixIpv4) : PrefixIpv4 :=
  let index := p.prefixlen.toNat / 8
  if index < 4 then
    { p with addr := p.addr.take index ++
        ((p.addr.drop index).take 1).map (fun b => b &&& maskbit.getD (p.prefixlen.toNat % 8) 0) ++
        (p.addr.drop (index + 1)).map fun _ => 0 }
  else p

/-- The node of a prefix. -/
def PrefixIpv4.key (p : PrefixIpv4) : List Bool := (byteBits p.addr).take p.prefixlen.toNat

/-- `rib_link`. -/
def ribLink (t : RibTable) (k : List Bool) (rib : RibEntry) : RibTable :=
  (routeLockNode t k).setInfo k (some (rib :: (t.info k).getD []))

/-- `rib_add_ipv4`. Of a prefix longer than an address the bits behind it would be read. -/
def ribAddIpv4 (r : RouteIpv4) (t : RibTable) : Option RibTable := do
  let p := applyMaskIpv4 r.p
  guard (p.prefixlen.toNat ≤ 32)
  routeUnlockNode (ribLink (routeNodeGet t p.key) p.key
    ⟨r.type, r.vrfId, r.metric, r.distance, UInt8.ofNat (r.flags % 2 ^ 8).toNat⟩) p.key

/-- `router_process_route`. -/
def routerProcessRoute (rr : List UInt8) (t : RibTable) : Option RibTable := do
  let addr ← bytesAt rr 8 4
  let prefixlen ← numberIn rr 4 2
  let metric ← numberIn rr 20 4
  let distance ← numberIn rr 16 2
  let table ← numberIn rr 24 4
  ribAddIpv4
    { type := 0
      flags := 0
      p := ⟨UInt8.ofNat (swap 2 prefixlen), addr⟩
      vrfId := UInt32.ofNat (swap 4 table)
      metric := UInt32.ofNat (swap 2 metric)
      distance := UInt8.ofNat (swap 4 distance) } t

/-- `router_process_stats_routes`. -/
def routerProcessStatsRoutes (t : RibTable) (rsr : List UInt8) : Option RibTable := do
  let nRoutes ← recordCount rsr 8 28
  eachRecord 28 routerProcessRoute nRoutes (rsr.drop 8) t

/-- The entries at a node. -/
def entries (t : RibTable) (k : List Bool) : List RibEntry := (t.info k).getD []

/-- An entry says the same as a route. -/
structure Same (r : RouteIpv4) (e : RibEntry) : Prop where
  distance : e.distance = r.distance
  metric : e.metric = r.metric
  type : e.type = r.type
  flags : (e.flags.toNat : Int) = r.flags
  table : e.table = r.vrfId

/-- The routes have arrived: at each node there is one entry more for each route with that prefix, which says the
same. -/
def Transferred (t : RibTable) (routes : List DpRoute) (t' : RibTable) : Prop :=
  ∀ k, ∃ added, (entries t' k).Perm (added ++ entries t k) ∧
    List.Forall₂ (fun (r : DpRoute) e => Same r.toRouteIpv4 e) (routes.filter fun r => r.p.key = k) added

theorem bitsOf_maskbit (b : UInt8) {j : Nat} (hj : j < 8) :
    bitsOf 8 (b &&& maskbit.getD j 0).toNat = (bitsOf 8 b.toNat).take j ++ List.replicate (8 - j) false := by
  have hmask : bitsOf 8 (maskbit.getD j 0).toNat = List.replicate j true ++ List.replicate (8 - j) false := by
    revert j
    decide
  have hlen : (bitsOf 8 b.toNat).length = j + (8 - j) := by
    rw [length_bitsOf]
    omega
  rw [UInt8.toNat_and, bitsOf_and, hmask, zipWith_and_mask _ hlen]

theorem byteBits_zeros (bs : List UInt8) : byteBits (bs.map fun _ => 0) = List.replicate (8 * bs.length) false := by
  induction bs with
  | nil => rfl
  | cons b bs ih =>
      have hzero : bitsOf 8 (0 : UInt8).toNat = List.replicate 8 false := by decide
      rw [List.map_cons, byteBits, List.flatMap_cons, ← byteBits, ih, hzero, List.replicate_append_replicate,
        List.length_cons]
      congr 1
      omega

/-- The bits behind the length are cleared, and the others stay. -/
theorem byteBits_applyMaskIpv4 {p : PrefixIpv4} (haddr : p.addr.length = 4) (hlen : p.prefixlen.toNat ≤ 32) :
    byteBits (applyMaskIpv4 p).addr = p.key ++ List.replicate (32 - p.prefixlen.toNat) false := by
  have hbits : (byteBits p.addr).length = 32 := by rw [length_byteBits, haddr]
  unfold applyMaskIpv4
  simp only
  split
  case isFalse hindex =>
    have hall : p.prefixlen.toNat = 32 := by omega
    rw [PrefixIpv4.key, hall, ← hbits, List.take_length, Nat.sub_self, List.replicate_zero, List.append_nil]
  case isTrue hindex =>
    obtain ⟨i, hi⟩ : ∃ i, i = p.prefixlen.toNat / 8 := ⟨_, rfl⟩
    obtain ⟨j, hj⟩ : ∃ j, j = p.prefixlen.toNat % 8 := ⟨_, rfl⟩
    have hplen : p.prefixlen.toNat = 8 * i + j := by omega
    rw [← hi] at hindex
    have hget : i < p.addr.length := by omega
    have hdrop : p.addr.drop i = p.addr[i] :: p.addr.drop (i + 1) := List.drop_eq_getElem_cons hget
    have hfirst : (byteBits (p.addr.take i)).length = 8 * i := by
      rw [length_byteBits, List.length_take, Nat.min_eq_left (Nat.le_of_lt hget)]
    have hsplit : byteBits p.addr =
        byteBits (p.addr.take i) ++ (bitsOf 8 p.addr[i].toNat ++ byteBits (p.addr.drop (i + 1))) := by
      calc byteBits p.addr = byteBits (p.addr.take i ++ p.addr[i] :: p.addr.drop (i + 1)) := by
            rw [← hdrop, List.take_append_drop]
        _ = _ := by rw [byteBits_append]; rfl
    have hkey : p.key = byteBits (p.addr.take i) ++ (bitsOf 8 p.addr[i].toNat).take j := by
      have hfew : j - (bitsOf 8 p.addr[i].toNat).length = 0 := by
        rw [length_bitsOf]
        omega
      rw [PrefixIpv4.key, hplen, hsplit, List.take_append, hfirst, Nat.add_sub_cancel_left,
        List.take_of_length_le (by omega), List.take_append, hfew, List.take_zero, List.append_nil]
    have hzeros : (8 - j) + 8 * (p.addr.drop (i + 1)).length = 32 - p.prefixlen.toNat := by
      rw [List.length_drop, haddr, hplen]
      omega
    rw [← hi, ← hj, hdrop, hkey, List.take_succ_cons, List.take_zero, List.map_singleton, byteBits_append,
      byteBits_append, byteBits_zeros, ← hzeros, List.replicate_add, List.append_assoc, List.append_assoc]
    congr 1
    rw [byteBits, List.flatMap_singleton, bitsOf_maskbit _ (by omega), List.append_assoc]

theorem applyMaskIpv4_prefixlen (p : PrefixIpv4) : (applyMaskIpv4 p).prefixlen = p.prefixlen := by
  unfold applyMaskIpv4
  simp only
  split <;> rfl

theorem key_applyMaskIpv4 {p : PrefixIpv4} (haddr : p.addr.length = 4) (hlen : p.prefixlen.toNat ≤ 32) :
    (applyMaskIpv4 p).key = p.key := by
  have hkey : p.key.length = p.prefixlen.toNat := by
    rw [PrefixIpv4.key, List.length_take, length_byteBits, haddr]
    omega
  rw [PrefixIpv4.key, applyMaskIpv4_prefixlen, byteBits_applyMaskIpv4 haddr hlen, List.take_left' hkey]

/-! ### One route -/

/-- What the controller makes of a route: the low half of the metric, and no distance, type or flags. -/
def received (r : RouteIpv4) : RouteIpv4 :=
  { r with type := 0, flags := 0, metric := UInt32.ofNat (r.metric.toNat % 2 ^ 16), distance := 0 }

def entryOf (r : RouteIpv4) : RibEntry :=
  ⟨r.type, r.vrfId, r.metric, r.distance, UInt8.ofNat (r.flags % 2 ^ 8).toNat⟩

section Route

variable {t : RibTable}

theorem ribAddIpv4_spec (h : Kept t) (r : RouteIpv4) (haddr : r.p.addr.length = 4) (hlen : r.p.prefixlen.toNat ≤ 32) :
    ∃ t', ribAddIpv4 r t = some t' ∧ Kept t' ∧
      t'.info = Function.update t.info r.p.key (some (entryOf r :: entries t r.p.key)) := by
  have hget := h.routeNodeGet r.p.key
  have hlock : 1 < (ribLink (routeNodeGet t r.p.key) r.p.key (entryOf r)).lock r.p.key := by
    have hpos : 0 < (routeNodeGet t r.p.key).lock r.p.key := routeNodeGet_lock_pos
    simp only [ribLink, RouteTable.setInfo, routeLockNode, Function.update_self]
    omega
  have hlink : Kept (ribLink (routeNodeGet t r.p.key) r.p.key (entryOf r)) :=
    (hget.lock r.p.key).setInfo routeNodeGet_mem (by simp [routeLockNode])
  obtain ⟨t', hunlock, hkept, -, hinfo, -⟩ := hlink.unlock hlock
  refine ⟨t', ?_, hkept, ?_⟩
  · rw [ribAddIpv4]
    simp only [applyMaskIpv4_prefixlen, key_applyMaskIpv4 haddr hlen]
    rw [guard, if_pos hlen]
    exact hunlock
  · rw [hinfo, ribLink, RouteTable.setInfo, routeLockNode_info, h.routeNodeGet_info]
    rfl

theorem swap_low {x : Nat} (hx : x < 2 ^ 8) : swap 4 x % 2 ^ 16 = 0 := by
  have hzero : le 4 x = [UInt8.ofNat x, 0, 0, 0] := by
    have h1 : x / 2 ^ 8 = 0 := by omega
    rw [le, h1]
    rfl
  rw [swap, hzero]
  simp only [List.reverse_cons, List.reverse_nil, List.nil_append, List.cons_append, ofLe]
  have h0 : (0 : UInt8).toNat = 0 := rfl
  rw [h0]
  omega

theorem routerProcessRoute_fillRouteDesc (r : DpRoute) (rest : List UInt8) (t : RibTable) :
    routerProcessRoute ((fillRouteDesc r.toRouteIpv4).flatten ++ rest) t = ribAddIpv4 (received r.toRouteIpv4) t := by
  have hlen := r.length_addr
  have hoff (i : Nat) : ((fillRouteDesc r.toRouteIpv4).take i).flatten.length =
      (((fillRouteDesc r.toRouteIpv4).map List.length).take i).sum := by
    rw [List.length_flatten, List.map_take]
  have hlengths : (fillRouteDesc r.toRouteIpv4).map List.length = [2, 2, 2, 2, 4, 4, 2, 2, 4, 4] := by
    simp only [fillRouteDesc, List.map_cons, List.map_nil, length_le, hlen]
  rw [hlengths] at hoff
  have haddr := bytesAt_flatten (fillRouteDesc r.toRouteIpv4) 4 rfl (hoff 4) hlen rest
  have hprefixlen := numberIn_flatten (fillRouteDesc r.toRouteIpv4) 2 rfl (hoff 2) rest
  have hmetric := numberIn_flatten (fillRouteDesc r.toRouteIpv4) 8 rfl (hoff 8) rest
  have hdistance := numberIn_flatten (fillRouteDesc r.toRouteIpv4) 6 rfl (hoff 6) rest
  have htable := numberIn_flatten (fillRouteDesc r.toRouteIpv4) 9 rfl (hoff 9) rest
  have hplen := r.p.prefixlen.toNat_lt
  have htab := r.vrfId.toNat_lt
  have hplen' : swap 2 (swap 2 r.p.prefixlen.toNat % 2 ^ (8 * 2)) = r.p.prefixlen.toNat := by
    rw [Nat.mod_eq_of_lt (swap_lt 2 _), swap_swap_of_lt (by omega)]
  have hmet' : swap 2 (swap 2 r.metric.toNat % 2 ^ (8 * 4)) = r.metric.toNat % 2 ^ 16 := by
    have hlt := swap_lt 2 r.metric.toNat
    rw [Nat.mod_eq_of_lt (by omega), swap_swap]
  have hdist' : swap 4 (swap 4 r.distance.toNat % 2 ^ (8 * 2)) = 0 := by
    rw [swap_low r.distance.toNat_lt]
    rfl
  have htab' : swap 4 (swap 4 r.vrfId.toNat % 2 ^ (8 * 4)) = r.vrfId.toNat := by
    rw [Nat.mod_eq_of_lt (swap_lt 4 _), swap_swap_of_lt (by omega)]
  rw [routerProcessRoute]
  simp only [List.take, List.sum_cons, List.sum_nil, Nat.reduceAdd] at haddr hprefixlen hmetric hdistance htable
  simp only [haddr, hprefixlen, hmetric, hdistance, htable, Option.bind_eq_bind, Option.bind_some, hplen', hmet',
    hdist', htab', UInt8.ofNat_toNat, UInt32.ofNat_toNat]
  rfl

/-- The table after one record. -/
def ribAdded (t : RibTable) (r : DpRoute) : RibTable := (ribAddIpv4 (received r.toRouteIpv4) t).getD t

theorem ribAdded_spec (h : Kept t) (r : DpRoute) :
    ribAddIpv4 (received r.toRouteIpv4) t = some (ribAdded t r) ∧ Kept (ribAdded t r) ∧
      (ribAdded t r).info =
        Function.update t.info r.p.key (some (entryOf (received r.toRouteIpv4) :: entries t r.p.key)) := by
  obtain ⟨t', hadd, hkept, hinfo⟩ := ribAddIpv4_spec h (received r.toRouteIpv4) r.length_addr r.prefixlen_le
  rw [ribAdded, hadd, Option.getD_some]
  exact ⟨rfl, hkept, hinfo⟩

theorem entries_ribAdded (h : Kept t) (r : DpRoute) (k : List Bool) : entries (ribAdded t r) k =
    if r.p.key = k then entryOf (received r.toRouteIpv4) :: entries t k else entries t k := by
  rw [entries, (ribAdded_spec h r).2.2]
  by_cases hk : r.p.key = k
  · rw [if_pos hk, ← hk, Function.update_self, Option.getD_some]
  · rw [if_neg hk, Function.update_of_ne (Ne.symm hk), entries]

theorem foldl_ribAdded (h : Kept t) (rs : List DpRoute) (k : List Bool) : entries (rs.foldl ribAdded t) k =
    ((rs.filter fun r => r.p.key = k).map fun r => entryOf (received r.toRouteIpv4)).reverse ++ entries t k := by
  induction rs generalizing t with
  | nil => rfl
  | cons r rs ih =>
      rw [List.foldl_cons, ih (ribAdded_spec h r).2.1, entries_ribAdded h]
      by_cases hk : r.p.key = k
      · rw [if_pos hk, List.filter_cons_of_pos (by simpa using hk), List.map_cons, List.reverse_cons, List.append_assoc,
          List.singleton_append]
      · rw [if_neg hk, List.filter_cons_of_neg (by simpa using hk)]

end Route

theorem length_fillRouteDesc (r : DpRoute) : (fillRouteDesc r.toRouteIpv4).flatten.length = 28 := by
  simp only [fillRouteDesc, List.length_flatten, List.map_cons, List.map_nil, length_le, r.length_addr, List.sum_cons,
    List.sum_nil, Nat.reduceAdd]

/-- As many routes are added as the length that is left of the message has room for. -/
theorem routerProcessStatsRoutes_eq {t : RibTable} (h : Kept t) (xid : UInt32) (routes : List DpRoute) :
    routerProcessStatsRoutes t (sendStatsRoutesReply xid routes).data =
      if (8 + 28 * routes.length) % 2 ^ 16 < 8 then none
      else some ((routes.take (((8 + 28 * routes.length) % 2 ^ 16 - 8) / 28)).foldl ribAdded t) := by
  have hbody := length_flatMap_records length_fillRouteDesc routes
  rw [routerProcessStatsRoutes, recordCount, sendStatsRoutesReply, headerLength_routeflowAllocXid, hbody,
    drop_routeflowAllocXid]
  split
  case isTrue => rfl
  case isFalse =>
    obtain ⟨m, hm⟩ : ∃ m, m = ((8 + 28 * routes.length) % 2 ^ 16 - 8) / 28 := ⟨_, rfl⟩
    have hle : m ≤ routes.length := by omega
    have hlen : (routes.take m).length = m := by
      rw [List.length_take, Nat.min_eq_left hle]
    have hsplit : (routes.flatMap fun r => (fillRouteDesc r.toRouteIpv4).flatten) =
        ((routes.take m).flatMap fun r => (fillRouteDesc r.toRouteIpv4).flatten) ++
          (routes.drop m).flatMap fun r => (fillRouteDesc r.toRouteIpv4).flatten := by
      rw [← List.flatMap_append, List.take_append_drop]
    have hrun := eachRecord_flatMap length_fillRouteDesc (fun s r hs => (ribAdded_spec hs r).2.1)
      (fun s r rest hs => (routerProcessRoute_fillRouteDesc r rest s).trans (ribAdded_spec hs r).1) (routes.take m)
      ((routes.drop m).flatMap fun r => (fillRouteDesc r.toRouteIpv4).flatten) h
    rw [hlen] at hrun
    rw [Option.bind_eq_bind, Option.bind_some, ← hm, hsplit, hrun]

/-- The routes that arrive as they are. -/
def Plain (r : RouteIpv4) : Prop := r.distance = 0 ∧ r.metric.toNat < 2 ^ 16 ∧ r.type = 0 ∧ r.flags = 0

theorem same_entryOf_received {r : RouteIpv4} (h : Plain r) : Same r (entryOf (received r)) := by
  obtain ⟨hdistance, hmetric, htype, hflags⟩ := h
  refine ⟨hdistance.symm, ?_, htype.symm, ?_, rfl⟩
  · show UInt32.ofNat (r.metric.toNat % 2 ^ 16) = r.metric
    rw [Nat.mod_eq_of_lt hmetric, UInt32.ofNat_toNat]
  · rw [hflags]
    rfl

theorem plain_of_same {r r' : RouteIpv4} (h : Same r (entryOf (received r'))) : Plain r := by
  refine ⟨h.distance.symm, ?_, h.type.symm, h.flags.symm⟩
  have hlt : (UInt32.ofNat (r'.metric.toNat % 2 ^ 16)).toNat < 2 ^ 16 := by
    rw [UInt32.toNat_ofNat']
    omega
  exact h.metric ▸ hlt

theorem transferred_foldl {t : RibTable} (h : Kept t) {routes : List DpRoute}
    (hplain : ∀ r ∈ routes, Plain r.toRouteIpv4) : Transferred t routes (routes.foldl ribAdded t) := by
  intro k
  refine ⟨(routes.filter fun r => r.p.key = k).map fun r => entryOf (received r.toRouteIpv4), ?_, ?_⟩
  · rw [foldl_ribAdded h]
    exact (List.reverse_perm _).append_right _
  · rw [List.forall₂_map_right_iff, List.forall₂_same]
    exact fun r hr => same_entryOf_received (hplain r (List.mem_of_mem_filter hr))

theorem of_transferred {t : RibTable} (h : Kept t) {routes : List DpRoute} {m : Nat}
    (htrans : Transferred t routes ((routes.take m).foldl ribAdded t)) :
    routes.length ≤ m ∧ ∀ r ∈ routes, Plain r.toRouteIpv4 := by
  have hadded (k : List Bool) : ∃ added,
      added.Perm ((((routes.take m).filter fun r => r.p.key = k).map fun r => entryOf (received r.toRouteIpv4))) ∧
      List.Forall₂ (fun (r : DpRoute) e => Same r.toRouteIpv4 e) (routes.filter fun r => r.p.key = k) added := by
    obtain ⟨added, hperm, hsame⟩ := htrans k
    rw [foldl_ribAdded h, List.perm_append_right_iff] at hperm
    exact ⟨added, hperm.symm.trans (List.reverse_perm _), hsame⟩
  constructor
  · by_contra hless
    -- the first route that is left out is missing at its node
    obtain ⟨r, later, hr⟩ : ∃ r later, routes.drop m = r :: later :=
      ⟨_, _, List.drop_eq_getElem_cons (Nat.lt_of_not_le hless)⟩
    obtain ⟨added, hperm, hsame⟩ := hadded r.p.key
    have hlen := hsame.length_eq.trans hperm.length_eq
    have hmore : (routes.filter fun r' => r'.p.key = r.p.key).length =
        ((routes.take m).filter fun r' => r'.p.key = r.p.key).length +
          ((r :: later).filter fun r' => r'.p.key = r.p.key).length := by
      rw [← List.length_append, ← List.filter_append, ← hr, List.take_append_drop]
    rw [List.length_map, hmore, List.filter_cons_of_pos (by simp), List.length_cons] at hlen
    omega
  · intro r hr
    obtain ⟨added, hperm, hsame⟩ := hadded r.p.key
    have hmem : r ∈ routes.filter fun r' => r'.p.key = r.p.key := List.mem_filter.mpr ⟨hr, by simp⟩
    obtain ⟨i, hi, hri⟩ := List.getElem_of_mem hmem
    have hi' : i < added.length := hsame.length_eq ▸ hi
    have hentry := hperm.mem_iff.mp (List.getElem_mem hi')
    obtain ⟨r', -, hr'⟩ := List.mem_map.mp hentry
    have hthis := hsame.get hi hi'
    rw [List.get_eq_getElem, List.get_eq_getElem, hri, ← hr'] at hthis
    exact plain_of_same hthis

/-- The routes of a datapath arrive if and only if their message is not too long and each is plain. -/
theorem statsRoutes_transferred_iff {t : RibTable} (h : Kept t) (xid : UInt32) (routes : List DpRoute) :
    (∃ t', routerProcessStatsRoutes t (sendStatsRoutesReply xid routes).data = some t' ∧ Transferred t routes t') ↔
      8 + 28 * routes.length < 2 ^ 16 ∧
        ∀ r ∈ routes, r.distance = 0 ∧ r.metric.toNat < 2 ^ 16 ∧ r.type = 0 ∧ r.flags = 0 := by
  rw [routerProcessStatsRoutes_eq h]
  constructor
  · rintro ⟨t', hrun, htrans⟩
    split at hrun
    case isTrue => cases hrun
    case isFalse hlen =>
      obtain rfl := Option.some.inj hrun
      obtain ⟨hcount, hplain⟩ := of_transferred h htrans
      exact ⟨by omega, hplain⟩
  · rintro ⟨hlen, hplain⟩
    have hall : ((8 + 28 * routes.length) % 2 ^ 16 - 8) / 28 = routes.length := by
      rw [Nat.mod_eq_of_lt hlen, Nat.add_sub_cancel_left, Nat.mul_div_cancel_left _ (by decide)]
    rw [if_neg (by omega), hall, List.take_length]
    exact ⟨_, rfl, transferred_foldl h hplain⟩

/-- 10.0.0.0/8, as a datapath keeps it. -/
def routeTen (distance : UInt8) : DpRoute where
  type := 0
  flags := 0
  p := ⟨8, [10, 0, 0, 0]⟩
  vrfId := 254
  metric := 20
  distance := distance
  length_addr := rfl
  prefixlen_le := by decide

theorem statsRoutes_transferred_ten :
    ∃ t', routerProcessStatsRoutes routeTableInit (sendStatsRoutesReply 1 [routeTen 0]).data = some t' ∧
      Transferred routeTableInit [routeTen 0] t' :=
  (statsRoutes_transferred_iff Kept.init 1 [routeTen 0]).mpr ⟨by decide, fun r hr => by
    obtain rfl := List.mem_singleton.mp hr
    decide⟩

/-- A distance does not arrive. -/
theorem statsRoutes_not_transferred :
    ¬ ∃ t', routerProcessStatsRoutes routeTableInit (sendStatsRoutesReply 1 [routeTen 1]).data = some t' ∧
      Transferred routeTableInit [routeTen 1] t' := by
  rintro ⟨t', hrun, htrans⟩
  rw [routerProcessStatsRoutes_eq Kept.init] at hrun
  obtain rfl := Option.some.inj hrun
  have hplain := (of_transferred Kept.init htrans).2 (routeTen 1) (List.mem_singleton_self _)
  exact absurd hplain.1 (by decide)

end Harry.Transfer
