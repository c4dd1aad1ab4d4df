import Harry.DbList
import Harry.RouteTransfer

/-! The IPv6 routes of a datapath (`zl/controller.c`, `zl/datapath.c`): a request from the controller to set a route has
the routes of the same prefix taken out of the list of the datapath and of the kernel, and the new one put into both.
The list is one of `dblist.c`, changed while it is gone through. -/

namespace Harry.Zebralite

open Harry.Base Harry.Rfp Harry.Transfer Harry.DbList

/-- `struct route_ipv6` with its prefix. -/
structure RouteIpv6 where
  addr : List UInt8
  prefixlen : UInt8
  ifindex : UInt32
  deriving DecidableEq

/-- The prefix of a route. -/
def RouteIpv6.key (r : RouteIpv6) : List UInt8 × UInt8 := (r.addr, r.prefixlen)

/-- `netlink_route_set` and `netlink_route_unset`, with what they are given. -/
inductive KernelRequest where
  | routeSet (route : RouteIpv6) (gateway : List UInt8)
  | routeUnset (route : RouteIpv6)
  deriving DecidableEq

/-- `struct datapath`; `links` and `route` are the memory with the nodes of `ipv6_rib_routes`, and `kernel` is what the
kernel has been asked for. -/
structure Datapath (ρ : Type) where
  id : UInt64
  portList : List SwPort
  ipv4RibRoutes : List DpRoute
  links : Links ρ
  route : ρ → RouteIpv6
  kernel : List KernelRequest

/-- `ctrl_client_route_set`, of the best route: `struct rfp_ipv6_route`. `pad` is what is in the bytes that the compiler
puts behind the prefix length. -/
def ctrlClientRouteSet (xid : UInt32) (pad : UInt16) (route : RouteIpv6) (nexthop : List UInt8) : Rfpbuf :=
  .routeflowAllocXid .ipv6RouteSetRequest xid
    [le 2 (swap 2 route.prefixlen.toNat), le 2 pad.toNat, route.addr, le 4 (swap 2 route.ifindex.toNat), nexthop].flatten

/-- What `recv_ipv6_route_set_request` reads: the route and its next hop. `rfpbuf_at_assert` fails if the message is too
short. -/
def rfpIpv6Route (msg : Rfpbuf) : Option (RouteIpv6 × List UInt8) := do
  let _ ← bytesAt msg.data 0 48
  let prefixlen ← numberIn msg.data 8 2
  let p ← bytesAt msg.data 12 16
  let ifindex ← numberIn msg.data 28 4
  let nexthopAddr ← bytesAt msg.data 32 16
  some (⟨p, UInt8.ofNat (swap 2 prefixlen), UInt32.ofNat (swap 2 ifindex)⟩, nexthopAddr)

variable {ρ : Type} [DecidableEq ρ]

/-- `unset_route_v6`. -/
def unsetRouteV6 (route : RouteIpv6) (dp : Datapath ρ) : Datapath ρ :=
  { dp with kernel := dp.kernel ++ [.routeUnset route] }

/-- The body of the loop of `set_route_v6`. -/
def replaceSame (route : RouteIpv6) (ribRoute : ρ) (dp : Datapath ρ) : Datapath ρ :=
  if route.addr = (dp.route ribRoute).addr ∧ route.prefixlen = (dp.route ribRoute).prefixlen then
    let dp := unsetRouteV6 (dp.route ribRoute) dp
    { dp with links := (listRemove dp.links ribRoute).1 }
  else dp

/-- `set_route_v6`. -/
def setRouteV6 (fuel : Nat) (route : ρ) (nexthopAddr : List UInt8) (rib : ρ) (dp : Datapath ρ) :
    Option (Datapath ρ) := do
  let dp ← forEach Datapath.links (replaceSame (dp.route route)) rib fuel (dp.links.next rib) dp
  let dp := { dp with links := listInit dp.links route }
  let dp := { dp with links := listPushBack dp.links rib route }
  some { dp with kernel := dp.kernel ++ [.routeSet (dp.route route) nexthopAddr] }

/-- `recv_ipv6_route_set_request`, with the address of the new route. -/
def recvIpv6RouteSetRequest (fuel : Nat) (rib route : ρ) (msg : Rfpbuf) (dp : Datapath ρ) : Option (Datapath ρ) := do
  let (r, nexthopAddr) ← rfpIpv6Route msg
  setRouteV6 fuel route nexthopAddr rib { dp with route := Function.update dp.route route r }

/-- A message that arrives. A new route is put at `route`, and `pads` is what is in the memory of a reply. -/
structure Arrival (ρ : Type) where
  msg : Rfpbuf
  route : ρ
  pads : Nat → UInt16

/-- What a datapath sends, to the controller and to the punter. -/
inductive Sent where
  | reply (msg : Rfpbuf)
  | punt (msg : Rfpbuf)

/-- `fwd_control_input`. -/
def fwdControlInput (fuel : Nat) (rib : ρ) (a : Arrival ρ) (dp : Datapath ρ) : Option (Datapath ρ × List Sent) :=
  match a.msg.type with
  | some .featuresRequest => some (dp, [.reply (sendFeaturesReply dp.id a.msg.xid dp.portList)])
  | some .addressesRequest => some (dp, [.reply (sendAddressesReply a.pads a.msg.xid dp.portList)])
  | some .statsRoutesRequest => some (dp, [.reply (sendStatsRoutesReply a.msg.xid dp.ipv4RibRoutes)])
  | some .ipv6RouteSetRequest => (recvIpv6RouteSetRequest fuel rib a.route a.msg dp).map fun dp => (dp, [])
  | some .forwardOspf6 => some (dp, [.punt a.msg])
  | _ => some (dp, [])

/-- A run of messages. -/
def run (fuel : Nat) (rib : ρ) : List (Arrival ρ) → Datapath ρ → Option (Datapath ρ × List Sent)
  | [], dp => some (dp, [])
  | a :: as, dp => do
    let (dp, sent) ← fwdControlInput fuel rib a dp
    let (dp, more) ← run fuel rib as dp
    some (dp, sent ++ more)

/-- The route that a message sets, if it is a request for that. -/
def routeSetBy (msg : Rfpbuf) : Option RouteIpv6 :=
  if msg.type = some .ipv6RouteSetRequest then (rfpIpv6Route msg).map Prod.fst else none

/-- The routes of the kernel after a request. -/
def installed (rib : List RouteIpv6) : KernelRequest → List RouteIpv6
  | .routeSet r _ => rib ++ [r]
  | .routeUnset r => rib.erase r

/-- A route takes the place of those of its prefix. -/
def replaced (rib : List RouteIpv6) (r : RouteIpv6) : List RouteIpv6 := rib.filter (·.key ≠ r.key) ++ [r]

/-- What is sent is what is read; an index has 16 bits on the way. -/
theorem rfpIpv6Route_ctrlClientRouteSet (xid : UInt32) (pad : UInt16) {route : RouteIpv6} {nexthop : List UInt8}
    (haddr : route.addr.length = 16) (hnexthop : nexthop.length = 16) :
    rfpIpv6Route (ctrlClientRouteSet xid pad route nexthop) =
      some ({ route with ifindex := UInt32.ofNat (route.ifindex.toNat % 2 ^ 16) }, nexthop) := by
  obtain ⟨header, hheader, hlen⟩ : ∃ header : List UInt8, header.length = 8 ∧
      (ctrlClientRouteSet xid pad route nexthop).data = [header, le 2 (swap 2 route.prefixlen.toNat), le 2 pad.toNat,
        route.addr, le 4 (swap 2 route.ifindex.toNat), nexthop].flatten := by
    obtain ⟨body, hbody⟩ : ∃ body, body = [le 2 (swap 2 route.prefixlen.toNat), le 2 pad.toNat, route.addr,
      le 4 (swap 2 route.ifindex.toNat), nexthop].flatten := ⟨_, rfl⟩
    refine ⟨[1, RfpType.code .ipv6RouteSetRequest] ++ htons (8 + body.length) ++ htonl xid, ?_, ?_⟩
    · simp only [htons, htonl, List.length_append, List.length_cons, List.length_nil]
    · rw [List.flatten_cons, ← hbody, ctrlClientRouteSet, ← hbody]
      rfl
  obtain ⟨fs, hfs⟩ : ∃ fs, fs = [header, le 2 (swap 2 route.prefixlen.toNat), le 2 pad.toNat, route.addr,
    le 4 (swap 2 route.ifindex.toNat), nexthop] := ⟨_, rfl⟩
  rw [← hfs, ← List.append_nil fs.flatten] at hlen
  have hoff (i : Nat) : (fs.take i).flatten.length = (([8, 2, 2, 16, 4, 16] : List Nat).take i).sum := by
    rw [List.length_flatten, List.map_take, hfs]
    simp only [List.map_cons, List.map_nil, length_le, hheader, haddr, hnexthop]
  have hwhole : bytesAt (fs.flatten ++ []) 0 48 = some (fs.flatten ++ []) := by
    have htotal := hoff 6
    rw [List.take_of_length_le (by rw [hfs]; rfl)] at htotal
    have h48 : fs.flatten.length = 48 := htotal
    rw [bytesAt, List.append_nil, h48, if_pos (by decide), List.drop_zero, List.take_of_length_le h48.le]
  have hprefixlen := numberIn_flatten fs 1 (by rw [hfs]; rfl) (hoff 1) []
  have hp := bytesAt_flatten fs 3 (by rw [hfs]; rfl) (hoff 3) haddr []
  have hifindex := numberIn_flatten fs 4 (by rw [hfs]; rfl) (hoff 4) []
  have hnext := bytesAt_flatten fs 5 (by rw [hfs]; rfl) (hoff 5) hnexthop []
  have hplen := route.prefixlen.toNat_lt
  have hplen' : swap 2 (swap 2 route.prefixlen.toNat % 2 ^ (8 * 2)) = route.prefixlen.toNat := by
    rw [Nat.mod_eq_of_lt (swap_lt 2 _), swap_swap_of_lt (by omega)]
  have hindex' : swap 2 (swap 2 route.ifindex.toNat % 2 ^ (8 * 4)) = route.ifindex.toNat % 2 ^ 16 := by
    have hlt := swap_lt 2 route.ifindex.toNat
    rw [Nat.mod_eq_of_lt (by omega), swap_swap]
  simp only [List.take, List.sum_cons, List.sum_nil, Nat.reduceAdd] at hprefixlen hp hifindex hnext
  simp only [rfpIpv6Route, hlen, hwhole, hprefixlen, hp, hifindex, hnext, Option.bind_eq_bind, Option.bind_some, hplen',
    hindex', UInt8.ofNat_toNat]

theorem foldl_erase_cons {α : Type} [DecidableEq α] {x : α} {ys l : List α} (h : ∀ y ∈ ys, y ≠ x) :
    ys.foldl List.erase (x :: l) = x :: ys.foldl List.erase l := by
  induction ys generalizing l with
  | nil => rfl
  | cons y ys ih =>
      obtain ⟨hy, hys⟩ := List.forall_mem_cons.mp h
      rw [List.foldl_cons, List.erase_cons_tail (by simpa using hy.symm), ih hys, List.foldl_cons]

/-- What is taken out one after another, in the order in which it is found. -/
theorem foldl_erase_filter {α : Type} [DecidableEq α] (f : α → Bool) (l : List α) :
    (l.filter f).foldl List.erase l = l.filter (!f ·) := by
  induction l with
  | nil => rfl
  | cons x l ih =>
      by_cases hx : f x
      · rw [List.filter_cons_of_pos hx, List.foldl_cons, List.erase_cons_head, ih,
          List.filter_cons_of_neg (by simp [hx])]
      · have hne : ∀ y ∈ l.filter f, y ≠ x := by
          rintro y hy rfl
          exact hx (List.mem_filter.mp hy).2
        rw [List.filter_cons_of_neg hx, foldl_erase_cons hne, ih, List.filter_cons_of_pos (by simp [hx])]

variable {m : Members ρ} {rib : ρ} {ms : List ρ} {dp : Datapath ρ}

/-- The list of the datapath has these routes, and so has the kernel, which had `rib₀` in the beginning. -/
structure Shows (m : Members ρ) (rib : ρ) (rib₀ : List RouteIpv6) (dp : Datapath ρ) (ms : List ρ) : Prop where
  rings : Rings dp.links m
  members : m rib = some ms
  kernel : dp.kernel.foldl installed rib₀ = ms.map dp.route

/-- Where the loop of `set_route_v6` stands. -/
structure Replacing (m : Members ρ) (rib : ρ) (dp : Datapath ρ) (r : RouteIpv6) (ms rest : List ρ) (s : Datapath ρ) :
    Prop where
  route : s.route = dp.route
  rings : ∃ seen, seen ++ rest = ms ∧
    Rings s.links (Function.update m rib (some (seen.filter (fun e => (dp.route e).key ≠ r.key) ++ rest))) ∧
    s.kernel = dp.kernel ++ (seen.filter fun e => (dp.route e).key = r.key).map (.routeUnset ∘ dp.route)

theorem Replacing.step {r : RouteIpv6} {e : ρ} {rest : List ρ} {s : Datapath ρ}
    (h : Replacing m rib dp r ms (e :: rest) s) :
    e ≠ rib ∧ (replaceSame r e s).links.next e = rest.headD rib ∧ Replacing m rib dp r ms rest (replaceSame r e s) := by
  obtain ⟨hroute, seen, hms, hr, hkernel⟩ := h
  obtain ⟨hne, hnext⟩ := next_of_mem hr (Function.update_self ..)
  have hsame : (r.addr = (dp.route e).addr ∧ r.prefixlen = (dp.route e).prefixlen) ↔ (dp.route e).key = r.key := by
    rw [RouteIpv6.key, RouteIpv6.key, Prod.mk.injEq, eq_comm, eq_comm (a := r.prefixlen)]
  have hseen : seen ++ [e] ++ rest = ms := by rw [← hms, List.append_assoc, List.singleton_append]
  have hfilter (f : ρ → Bool) : (seen ++ [e]).filter f = seen.filter f ++ if f e then [e] else [] := by
    rw [List.filter_append, List.filter_singleton]
    cases f e <;> rfl
  rw [replaceSame, hroute]
  by_cases he : (dp.route e).key = r.key
  · rw [if_pos (hsame.mpr he)]
    refine ⟨hne, ?_, hroute, seen ++ [e], hseen, ?_, ?_⟩
    · simp only [listRemove_links, unsetRouteV6, unlink_next_self, hnext]
    · have hout := hr.unlink (Function.update_self ..)
      rw [Function.update_idem] at hout
      simpa only [listRemove_links, unsetRouteV6, hfilter, he, ne_eq, not_true_eq_false, decide_false,
        Bool.false_eq_true, if_false, List.append_nil] using hout
    · simp only [unsetRouteV6, hkernel, hfilter, he, decide_true, if_true, List.map_append, List.map_cons,
        List.map_nil, Function.comp_apply, List.append_assoc]
  · rw [if_neg (fun hsame' => he (hsame.mp hsame'))]
    refine ⟨hne, hnext, hroute, seen ++ [e], hseen, ?_, ?_⟩
    · simpa only [hfilter, he, ne_eq, not_false_eq_true, decide_true, if_true, List.append_assoc,
        List.singleton_append] using hr
    · simp only [hkernel, hfilter, he, decide_false, Bool.false_eq_true, if_false, List.append_nil]

omit [DecidableEq ρ] in
theorem eq_none_of_free {a : ρ} (ha : Free m a) : m a = none := by
  cases hma : m a with
  | none => rfl
  | some ms => exact absurd List.mem_cons_self (ha a ms hma)

theorem free_update {a : ρ} (ha : Free m a) {xs : List ρ} (hm : m rib = some ms) (hxs : a ∉ xs) :
    Free (Function.update m rib (some xs)) a := by
  intro c cs hc
  by_cases hcr : c = rib
  · subst hcr
    rw [Function.update_self, Option.some.injEq] at hc
    subst hc
    intro hmem
    rcases List.mem_cons.mp hmem with rfl | hmem
    · exact ha a ms hm List.mem_cons_self
    · exact hxs hmem
  · rw [Function.update_of_ne hcr] at hc
    exact ha c cs hc

/-- A free node is made a list of its own and put at the end of another list. -/
theorem rings_pushBack_init {l : Links ρ} (hr : Rings l m) (hm : m rib = some ms) {a : ρ} (ha : Free m a) :
    Rings (listPushBack (listInit l a) rib a) (Function.update m rib (some (ms ++ [a]))) := by
  have hne : rib ≠ a := by
    rintro rfl
    exact ha rib ms hm List.mem_cons_self
  have hsingle : Rings (listInit l a) (Function.update m a (some [])) :=
    hr.single fun c cs hc hmem => ha c cs hc (List.mem_cons_of_mem _ hmem)
  have hforget : Function.update (Function.update m a (some [])) a none = m := by
    rw [Function.update_idem, ← eq_none_of_free ha, Function.update_eq_self]
  have hmem : ∀ c cs, Function.update m a (some []) c = some cs → a ∉ cs := by
    intro c cs hc
    by_cases hca : c = a
    · rw [hca, Function.update_self, Option.some.injEq] at hc
      exact hc ▸ List.not_mem_nil
    · rw [Function.update_of_ne hca] at hc
      exact fun hmem => ha c cs hc (List.mem_cons_of_mem _ hmem)
  have hinsert := rings_insert (h := rib) (e := a) hsingle (by rw [hforget, hm, List.append_nil]) hmem
  rw [hforget] at hinsert
  exact hinsert

/-- A new route takes the place of those of its prefix, in the list and in the kernel. -/
theorem setRouteV6_spec (hr : Rings dp.links m) (hm : m rib = some ms) {a : ρ} (ha : Free m a) (nexthop : List UInt8)
    {fuel : Nat} (hfuel : ms.length < fuel) : ∃ dp', setRouteV6 fuel a nexthop rib dp = some dp' ∧
      dp'.route = dp.route ∧
      Rings dp'.links (Function.update m rib
        (some (ms.filter (fun e => (dp.route e).key ≠ (dp.route a).key) ++ [a]))) ∧
      dp'.kernel = dp.kernel ++ (ms.filter fun e => (dp.route e).key = (dp.route a).key).map
        (.routeUnset ∘ dp.route) ++ [.routeSet (dp.route a) nexthop] := by
  have hstart : Replacing m rib dp (dp.route a) ms ms dp := by
    refine ⟨rfl, [], rfl, ?_, ?_⟩
    · rw [List.filter_nil, List.nil_append, ← hm, Function.update_eq_self]
      exact hr
    · rw [List.filter_nil, List.map_nil, List.append_nil]
  obtain ⟨s, hloop, hroute, seen, hseen, hr', hkernel⟩ :=
    forEach_rule (I := Replacing m rib dp (dp.route a) ms) (fun _ _ _ h => h.step) hfuel hstart
  rw [List.append_nil] at hseen hr'
  subst hseen
  have hfree : Free (Function.update m rib (some (seen.filter fun e => (dp.route e).key ≠ (dp.route a).key))) a :=
    free_update ha hm fun hmem => ha rib seen hm (List.mem_cons_of_mem _ (List.mem_filter.mp hmem).1)
  have hpush := rings_pushBack_init hr' (Function.update_self ..) hfree
  rw [Function.update_idem] at hpush
  refine ⟨{ s with
    links := listPushBack (listInit s.links a) rib a
    kernel := s.kernel ++ [.routeSet (s.route a) nexthop] }, ?_, hroute, hpush, ?_⟩
  · rw [setRouteV6, next_head hr hm, hloop, Option.bind_eq_bind, Option.bind_some]
  · simp only [hkernel, hroute]

/-! ### Runs -/

variable {rib₀ : List RouteIpv6} {fuel : Nat}

/-- The kernel takes the routes of a prefix out of what it has. -/
theorem foldl_installed_unset (l rs : List RouteIpv6) :
    (rs.map KernelRequest.routeUnset).foldl installed l = rs.foldl List.erase l := by
  rw [List.foldl_map]
  rfl

/-- What the kernel has is what the list has, after a request for a route as before it. -/
theorem Shows.recv (h : Shows m rib rib₀ dp ms) {a : ρ} (ha : Free m a) {msg : Rfpbuf} {r : RouteIpv6}
    {nexthop : List UInt8} (hmsg : rfpIpv6Route msg = some (r, nexthop)) (hfuel : ms.length < fuel) :
    ∃ dp' ms', recvIpv6RouteSetRequest fuel rib a msg dp = some dp' ∧
      Shows (Function.update m rib (some ms')) rib rib₀ dp' ms' ∧
      ms'.map dp'.route = replaced (ms.map dp.route) r ∧ ∀ x ∈ ms', x ∈ ms ∨ x = a := by
  obtain ⟨hr, hm, hkernel⟩ := h
  obtain ⟨dp₁, hdp₁⟩ : ∃ dp₁, dp₁ = { dp with route := Function.update dp.route a r } := ⟨_, rfl⟩
  have hr₁ : Rings dp₁.links m := by rwa [hdp₁]
  obtain ⟨dp', hset, hroute, hr', hkernel'⟩ := setRouteV6_spec hr₁ hm ha nexthop hfuel
  have hroute₁ : dp₁.route = Function.update dp.route a r := by rw [hdp₁]
  have hnew : dp₁.route a = r := by rw [hroute₁, Function.update_self]
  have hsame : ∀ e ∈ ms, dp₁.route e = dp.route e := by
    intro e he
    rw [hroute₁]
    refine Function.update_of_ne ?_ _ _
    rintro rfl
    exact ha rib ms hm (List.mem_cons_of_mem _ he)
  have hkept : (ms.filter fun e => (dp₁.route e).key ≠ (dp₁.route a).key).map dp₁.route =
      (ms.map dp.route).filter (·.key ≠ r.key) := by
    rw [hnew, ← List.map_congr_left hsame, List.filter_map]
    rfl
  have hgone : (ms.filter fun e => (dp₁.route e).key = (dp₁.route a).key).map dp₁.route =
      (ms.map dp.route).filter (·.key = r.key) := by
    rw [hnew, ← List.map_congr_left hsame, List.filter_map]
    rfl
  have hroutes : (ms.filter (fun e => (dp₁.route e).key ≠ (dp₁.route a).key) ++ [a]).map dp'.route =
      replaced (ms.map dp.route) r := by
    rw [hroute, List.map_append, hkept, List.map_singleton, hnew, replaced]
  refine ⟨dp', _, ?_, ⟨hr', Function.update_self .., ?_⟩, hroutes, ?_⟩
  · simp only [recvIpv6RouteSetRequest, hmsg, Option.bind_eq_bind, Option.bind_some, ← hdp₁, hset]
  · have hlog : dp₁.kernel = dp.kernel := by rw [hdp₁]
    rw [hroutes, hkernel', hlog, List.foldl_append, List.foldl_append, hkernel, ← List.map_map, hgone,
      foldl_installed_unset, foldl_erase_filter, hnew, List.foldl_cons, List.foldl_nil, installed, replaced]
    congr 2
    funext e
    rw [decide_not]
  · intro x hx
    rw [List.mem_append, List.mem_singleton] at hx
    exact hx.imp_left fun hx => (List.mem_filter.mp hx).1

theorem exists_rfpIpv6Route {msg : Rfpbuf} (h : 48 ≤ msg.size) : ∃ q, rfpIpv6Route msg = some q := by
  have hbytes {off n : Nat} (hoff : off + n ≤ 48) : bytesAt msg.data off n = some ((msg.data.drop off).take n) :=
    if_pos (hoff.trans h)
  have hnumber {off n : Nat} (hoff : off + n ≤ 48) :
      numberIn msg.data off n = some (ofLe ((msg.data.drop off).take n)) := by
    rw [numberIn, hbytes hoff, Option.map_some]
  rw [← Option.isSome_iff_exists, rfpIpv6Route,
    hbytes (by decide), hnumber (by decide), hbytes (by decide), hnumber (by decide),
    hbytes (by decide)]
  rfl

/-- Nothing else changes the datapath. -/
theorem fwdControlInput_of_ne {a : Arrival ρ} (h : a.msg.type ≠ some .ipv6RouteSetRequest) (rib : ρ)
    (dp : Datapath ρ) : ∃ sent, fwdControlInput fuel rib a dp = some (dp, sent) := by
  rw [fwdControlInput]
  split
  case h_4 hset => exact absurd hset h
  all_goals exact ⟨_, rfl⟩

/-- A message as a whole: the routes change by what it sets, if it sets one. -/
theorem Shows.fwdControlInput (h : Shows m rib rib₀ dp ms) {a : Arrival ρ} (ha : Free m a.route)
    (hwhole : a.msg.type = some .ipv6RouteSetRequest → 48 ≤ a.msg.size) (hfuel : ms.length < fuel) :
    ∃ dp' sent ms', Zebralite.fwdControlInput fuel rib a dp = some (dp', sent) ∧
      Shows (Function.update m rib (some ms')) rib rib₀ dp' ms' ∧
      ms'.map dp'.route = (routeSetBy a.msg).toList.foldl replaced (ms.map dp.route) ∧
      ∀ x ∈ ms', x ∈ ms ∨ x = a.route := by
  by_cases hset : a.msg.type = some .ipv6RouteSetRequest
  · obtain ⟨⟨r, nexthop⟩, hmsg⟩ := exists_rfpIpv6Route (hwhole hset)
    obtain ⟨dp', ms', hrecv, hshows, hroutes, hmem⟩ := h.recv ha hmsg hfuel
    refine ⟨dp', [], ms', ?_, hshows, ?_, hmem⟩
    · rw [Zebralite.fwdControlInput, hset]
      simp only [hrecv, Option.map_some]
    · rw [hroutes, routeSetBy, if_pos hset, hmsg]
      rfl
  · obtain ⟨sent, hsent⟩ := fwdControlInput_of_ne hset rib dp
    refine ⟨dp, sent, ms, hsent, ?_, ?_, fun x hx => .inl hx⟩
    · rw [← h.members, Function.update_eq_self]
      exact h
    · rw [routeSetBy, if_neg hset]
      rfl

/-- The routes that a run of messages sets, one after another. -/
def routesSetBy (as : List (Arrival ρ)) : List RouteIpv6 := as.filterMap fun a => routeSetBy a.msg

theorem length_foldl_replaced_le (rs l : List RouteIpv6) : (rs.foldl replaced l).length ≤ l.length + rs.length := by
  induction rs generalizing l with
  | nil => exact Nat.le_refl _
  | cons r rs ih =>
      have hstep : (replaced l r).length ≤ l.length + 1 := by
        rw [replaced, List.length_append, List.length_singleton]
        exact Nat.succ_le_succ (List.length_filter_le _ l)
      have hrest := ih (replaced l r)
      rw [List.foldl_cons, List.length_cons]
      omega

theorem Shows.run (h : Shows m rib rib₀ dp ms) {as : List (Arrival ρ)} (hfresh : (as.map Arrival.route).Nodup)
    (hfree : ∀ a ∈ as, Free m a.route)
    (hwhole : ∀ a ∈ as, a.msg.type = some .ipv6RouteSetRequest → 48 ≤ a.msg.size)
    (hfuel : ms.length + as.length < fuel) :
    ∃ dp' sent ms', Zebralite.run fuel rib as dp = some (dp', sent) ∧
      Shows (Function.update m rib (some ms')) rib rib₀ dp' ms' ∧
      ms'.map dp'.route = (routesSetBy as).foldl replaced (ms.map dp.route) := by
  induction as generalizing m dp ms with
  | nil =>
      refine ⟨dp, [], ms, rfl, ?_, rfl⟩
      rw [← h.members, Function.update_eq_self]
      exact h
  | cons a as ih =>
      obtain ⟨hfree₀, hfrees⟩ := List.forall_mem_cons.mp hfree
      obtain ⟨hwhole₀, hwholes⟩ := List.forall_mem_cons.mp hwhole
      rw [List.map_cons, List.nodup_cons] at hfresh
      rw [List.length_cons] at hfuel
      obtain ⟨dp₁, sent, ms₁, hfwd, hshows, hroutes, hmem⟩ :=
        h.fwdControlInput hfree₀ hwhole₀ (Nat.lt_of_le_of_lt (Nat.le_add_right ms.length (as.length + 1)) hfuel)
      have hlen : ms₁.length ≤ ms.length + 1 := by
        have hle := length_foldl_replaced_le (routeSetBy a.msg).toList (ms.map dp.route)
        rw [← hroutes, List.length_map, List.length_map] at hle
        exact hle.trans (Nat.add_le_add_left (Option.length_toList_le ..) _)
      have hfrees' : ∀ b ∈ as, Free (Function.update m rib (some ms₁)) b.route := by
        intro b hb
        refine free_update (hfrees b hb) h.members fun hin => ?_
        rcases hmem _ hin with hin | heq
        · exact hfrees b hb rib ms h.members (List.mem_cons_of_mem _ hin)
        · exact hfresh.1 (heq ▸ List.mem_map_of_mem hb)
      obtain ⟨dp', more, ms', hrun, hshows', hroutes'⟩ := ih hshows hfresh.2 hfrees' hwholes (by omega)
      rw [Function.update_idem] at hshows'
      refine ⟨dp', sent ++ more, ms', ?_, hshows', ?_⟩
      · simp only [Zebralite.run, hfwd, hrun, Option.bind_eq_bind, Option.bind_some]
      · rw [hroutes', hroutes, ← List.foldl_append]
        congr 1
        rw [routesSetBy, routesSetBy, List.filterMap_cons]
        cases routeSetBy a.msg <;> rfl

/-- Of a prefix that is asked for there is the last route, and of the others those that were there. -/
theorem filter_foldl_replaced (rs l : List RouteIpv6) (k : List UInt8 × UInt8) :
    (rs.foldl replaced l).filter (·.key = k) =
      ((rs.filter (·.key = k)).getLast?.map fun r => [r]).getD (l.filter (·.key = k)) := by
  induction rs using List.reverseRecOn with
  | nil => rfl
  | append_singleton rs r ih =>
      rw [List.foldl_append, List.foldl_cons, List.foldl_nil, replaced, List.filter_append, List.filter_append,
        List.filter_filter]
      by_cases hk : r.key = k
      · have hgone : ∀ x ∈ rs.foldl replaced l, ¬ (decide (x.key = k) && decide (x.key ≠ r.key)) = true := by
          intro x _ hx
          rw [Bool.and_eq_true, decide_eq_true_iff, decide_eq_true_iff] at hx
          exact hx.2 (hx.1.trans hk.symm)
        rw [List.filter_eq_nil_iff.mpr hgone, List.filter_singleton, decide_eq_true hk, cond_true,
          List.getLast?_concat]
        rfl
      · have hkeep (x : RouteIpv6) : (decide (x.key = k) && decide (x.key ≠ r.key)) = decide (x.key = k) := by
          rw [Bool.eq_iff_iff, Bool.and_eq_true, decide_eq_true_iff, decide_eq_true_iff, and_iff_left_iff_imp]
          exact fun hx heq => hk (heq.symm.trans hx)
        simp only [hkeep, ih, List.filter_singleton, hk, decide_false, cond_false, List.append_nil]

/-- After any run of messages, the list of the datapath is one of the routes that have been in it from the beginning and
those that were asked for, and the kernel has the same ones: of each prefix that was asked for there is the route that
was asked for last and no other, and of the other prefixes there are the routes from the beginning. -/
theorem routes_of_run (hr : Rings dp.links m) (hm : m rib = some ms) (hkernel : dp.kernel = [])
    {as : List (Arrival ρ)} (hfresh : (as.map Arrival.route).Nodup) (hfree : ∀ a ∈ as, Free m a.route)
    (hwhole : ∀ a ∈ as, a.msg.type = some .ipv6RouteSetRequest → 48 ≤ a.msg.size)
    (hfuel : ms.length + as.length < fuel) :
    ∃ dp' sent ms', run fuel rib as dp = some (dp', sent) ∧ Rings dp'.links (Function.update m rib (some ms')) ∧
      dp'.kernel.foldl installed (ms.map dp.route) = ms'.map dp'.route ∧
      ∀ k, (∀ r, ((routesSetBy as).filter (·.key = k)).getLast? = some r →
          (ms'.map dp'.route).filter (·.key = k) = [r]) ∧
        ((routesSetBy as).filter (·.key = k) = [] →
          (ms'.map dp'.route).filter (·.key = k) = (ms.map dp.route).filter (·.key = k)) := by
  have hstart : Shows m rib (ms.map dp.route) dp ms := ⟨hr, hm, by rw [hkernel, List.foldl_nil]⟩
  obtain ⟨dp', sent, ms', hrun, hshows, hroutes⟩ := hstart.run hfresh hfree hwhole hfuel
  refine ⟨dp', sent, ms', hrun, hshows.rings, hshows.kernel, fun k => ⟨fun r hr => ?_, fun hnil => ?_⟩⟩
  · rw [hroutes, filter_foldl_replaced, hr]
    rfl
  · rw [hroutes, filter_foldl_replaced, hnil]
    rfl

/-- A datapath without routes, and two requests for routes of one prefix. -/
def noRoutes : Datapath Nat := ⟨0, [], [], listInit ⟨id, id⟩ 0, fun _ => ⟨[], 0, 0⟩, []⟩

def twoRequests : List (Arrival Nat) :=
  [⟨ctrlClientRouteSet 7 0 ⟨List.replicate 16 1, 64, 2⟩ (List.replicate 16 9), 1, fun _ => 0⟩,
    ⟨ctrlClientRouteSet 8 0 ⟨List.replicate 16 1, 64, 3⟩ (List.replicate 16 9), 2, fun _ => 0⟩]

theorem routes_of_run_of_two : ∃ (dp' : Datapath Nat) (sent : List Sent) (ms' : List Nat),
    run 3 0 twoRequests noRoutes = some (dp', sent) ∧ dp'.kernel.foldl installed [] = ms'.map dp'.route ∧
    (ms'.map dp'.route).filter (·.key = (List.replicate 16 1, 64)) = [⟨List.replicate 16 1, 64, 3⟩] := by
  have hfree : ∀ a ∈ twoRequests, Free (Function.update (fun _ => none) 0 (some [])) a.route := by
    intro a ha
    refine free_single ?_
    simp only [twoRequests, List.mem_cons, List.not_mem_nil, or_false] at ha
    rcases ha with rfl | rfl <;> decide
  have hr : Rings noRoutes.links (Function.update (fun _ => none) 0 (some [])) :=
    (rings_none ⟨id, id⟩).single (by simp)
  have hfresh : (twoRequests.map Arrival.route).Nodup := by decide
  have hfuel : ([] : List Nat).length + twoRequests.length < 3 := by decide
  obtain ⟨dp', sent, ms', hrun, -, hkernel, hroutes⟩ := routes_of_run hr (Function.update_self ..) rfl hfresh hfree
    (by decide) hfuel
  exact ⟨dp', sent, ms', hrun, hkernel, (hroutes _).1 _ (by decide)⟩

end Harry.Zebralite
