import Mathlib.Data.List.Perm.Basic
import Harry.RouteTransfer

/-! The routes of the controller on their way to a sibling: `sib_router_redistribute` goes over the table that
`rib_add_ipv4` fills, and sends a message for each entry. -/

namespace Harry.Transfer

open Harry.Base Harry.Rfp Harry.Table

/-- `DISTANCE_INFINITY`. -/
def distanceInfinity : UInt8 := 255

/-- The address of a node: the bits of its prefix, and zeros. -/
def addrOf (b : List Bool) : List UInt8 :=
  (unpack (List.replicate 4 8) (b ++ List.replicate (32 - b.length) false)).map UInt8.ofNat

/-- `sib_router_send_route_reply`, for the node of a prefix. -/
def sibRouterSendRouteReply (type : RfpType) (xid : UInt32) (b : List Bool) : Rfpbuf :=
  .routeflowAllocXid type xid (htons b.length ++ [0, 0] ++ addrOf b)

/-- The messages for the entries of a node. -/
def sendEntries (xid : UInt32) (b : List Bool) (es : List RibEntry) : List Rfpbuf :=
  (es.filter fun newrib => newrib.distance ≠ distanceInfinity).map fun _ => sibRouterSendRouteReply .ipv4RouteAdd xid b

/-- The loop of `sib_router_redistribute`, from a node on. -/
def redistributeFrom (xid : UInt32) : Nat → RibTable → Option (List Bool) → Option (RibTable × List Rfpbuf)
  | _, t, none => some (t, [])
  | 0, _, some _ => none
  | n + 1, t, some rn => do
    let sent := sendEntries xid rn (entries t rn)
    let (t, next) ← routeNext t rn
    let (t, rest) ← redistributeFrom xid n t next
    pure (t, sent ++ rest)

/-- `sib_router_redistribute`. -/
def sibRouterRedistribute (xid : UInt32) (t : RibTable) : Option (RibTable × List Rfpbuf) :=
  redistributeFrom xid t.top.nodes.length (routeTop t).1 (routeTop t).2

/-- `rib_add_ipv4`, of one route after another. -/
def ribAddAll (t : RibTable) (routes : List DpRoute) : Option RibTable :=
  routes.foldlM (fun t r => ribAddIpv4 r.toRouteIpv4 t) t

/-- The length and the address of the prefix in a message, as a sibling reads them. -/
def announced (m : Rfpbuf) : Nat × List UInt8 :=
  match m.data.drop 8 with
  | high :: low :: _ :: _ :: p => (high.toNat * 2 ^ 8 + low.toNat, p.take 4)
  | _ => (0, [])

theorem length_key (r : DpRoute) : r.p.key.length = r.p.prefixlen.toNat := by
  rw [PrefixIpv4.key, List.length_take, length_byteBits, r.length_addr]
  have := r.prefixlen_le
  omega

theorem length_applyMaskIpv4 (r : DpRoute) : (applyMaskIpv4 r.p).addr.length = 4 := by
  have hcount := congrArg List.length (byteBits_applyMaskIpv4 r.length_addr r.prefixlen_le)
  rw [length_byteBits, List.length_append, length_key, List.length_replicate] at hcount
  have := r.prefixlen_le
  omega

/-- The address of the node of a prefix is the one with the mask. -/
theorem addrOf_key (r : DpRoute) : addrOf r.p.key = (applyMaskIpv4 r.p).addr := by
  have hbits := byteBits_applyMaskIpv4 r.length_addr r.prefixlen_le
  have hfour := length_applyMaskIpv4 r
  rw [addrOf, length_key, ← hbits, byteBits_eq_pack, hfour, unpack_pack (hfour ▸ fits_bytes _), List.map_map]
  simp [Function.comp_def]

section Table

variable {t : RibTable}

/-- At each node there is an entry for each of the routes with its prefix, the last one first. -/
theorem ribAddAll_spec (h : Kept t) (routes : List DpRoute) :
    ∃ t', ribAddAll t routes = some t' ∧ Kept t' ∧ ∀ k, entries t' k =
      ((routes.filter fun r => r.p.key = k).map fun r => entryOf r.toRouteIpv4).reverse ++ entries t k := by
  induction routes generalizing t with
  | nil => exact ⟨t, rfl, h, fun k => rfl⟩
  | cons r routes ih =>
      obtain ⟨t₁, hadd, hkept, hinfo⟩ := ribAddIpv4_spec h r.toRouteIpv4 r.length_addr r.prefixlen_le
      obtain ⟨t', hall, hkept', hentries⟩ := ih hkept
      refine ⟨t', by simp [ribAddAll, List.foldlM_cons, hadd, ← hall], hkept', fun k => ?_⟩
      rw [hentries, entries, hinfo]
      by_cases hk : r.p.key = k
      · subst hk
        simp
      · simp [hk, Function.update_of_ne (Ne.symm hk), entries]

/-- The loop goes over the nodes in the order of the tree, and gives back what it locks. -/
theorem redistributeFrom_eq (h : Kept t) (xid : UInt32) {xs ys : List (List Bool)} {n : Nat}
    (hnodes : t.top.nodes = xs ++ ys) (hn : ys.length ≤ n) :
    redistributeFrom xid n (t.lockNode? ys.head?) ys.head? =
      some (t, ys.flatMap fun b => sendEntries xid b (entries t b)) := by
  induction ys generalizing xs n with
  | nil => simp [redistributeFrom]
  | cons b ys ih =>
      obtain ⟨n, rfl⟩ : ∃ m, n = m + 1 := ⟨n - 1, by simp at hn; omega⟩
      have hafter : t.top.nodes = (xs ++ [b]) ++ ys := by simp [hnodes]
      have hrest := ih hafter (by simpa using hn)
      have hent : entries (routeLockNode t b) b = entries t b := rfl
      simp only [List.head?_cons, lockNode?_some, redistributeFrom, h.routeNext hnodes, Option.bind_eq_bind,
        Option.bind_some, hrest, hent, Option.pure_def, List.flatMap_cons]

theorem sibRouterRedistribute_eq (h : Kept t) (xid : UInt32) : sibRouterRedistribute xid t =
    some (t, t.top.nodes.flatMap fun b => sendEntries xid b (entries t b)) := by
  have hroot : t.top.root? = t.top.nodes.head? := (Radix.head?_nodes _).symm
  rw [sibRouterRedistribute, routeTop, hroot]
  exact redistributeFrom_eq h xid (List.nil_append _).symm (Nat.le_refl _)

end Table

/-! ### The messages -/

/-- Elements taken apart by a key are put together again in another order. -/
theorem flatMap_filter_perm {α κ : Type} [DecidableEq κ] (f : α → κ) {l : List α} {ks : List κ} (hks : ks.Nodup)
    (hl : ∀ x ∈ l, f x ∈ ks) : (ks.flatMap fun k => l.filter fun x => f x = k).Perm l := by
  induction ks generalizing l with
  | nil =>
      obtain rfl : l = [] := List.eq_nil_iff_forall_not_mem.mpr fun x hx => by simpa using hl x hx
      rfl
  | cons k ks ih =>
      obtain ⟨hk, hks⟩ := List.nodup_cons.mp hks
      have hrest := ih (l := l.filter fun x => !decide (f x = k)) hks fun x hx => by
        obtain ⟨hx, hne⟩ := List.mem_filter.mp hx
        simpa [show f x ≠ k by simpa using hne] using hl x hx
      have hothers : (ks.flatMap fun k' => (l.filter fun x => !decide (f x = k)).filter fun x => f x = k') =
          ks.flatMap fun k' => l.filter fun x => f x = k' := by
        refine List.flatMap_congr fun k' hk' => ?_
        rw [List.filter_filter]
        refine List.filter_congr fun x _ => ?_
        by_cases hx : f x = k'
        · have hne : f x ≠ k := fun h => hk (h.symm.trans hx ▸ hk')
          simp [hx, hx ▸ hne]
        · simp [hx]
      rw [hothers] at hrest
      rw [List.flatMap_cons]
      exact (hrest.append_left _).trans (List.filter_append_perm (fun x => decide (f x = k)) l)

/-- The routes whose distance is not infinite. -/
def redistributed (routes : List DpRoute) : List DpRoute :=
  routes.filter fun r => r.distance ≠ distanceInfinity

/-- The prefix of a route with its mask. -/
def maskedPrefix (r : DpRoute) : Nat × List UInt8 :=
  ((applyMaskIpv4 r.p).prefixlen.toNat, (applyMaskIpv4 r.p).addr)

theorem announced_sendRouteReply (xid : UInt32) (r : DpRoute) :
    announced (sibRouterSendRouteReply .ipv4RouteAdd xid r.p.key) = maskedPrefix r := by
  have haddr : (applyMaskIpv4 r.p).addr.take 4 = (applyMaskIpv4 r.p).addr := by
    rw [← length_applyMaskIpv4 r, List.take_length]
  have hdata : (sibRouterSendRouteReply .ipv4RouteAdd xid r.p.key).data.drop 8 =
      htons r.p.prefixlen.toNat ++ [0, 0] ++ (applyMaskIpv4 r.p).addr := by
    rw [← length_key, ← addrOf_key]
    rfl
  have hlow := r.p.prefixlen.toNat_lt
  have hnum : (UInt8.ofNat (r.p.prefixlen.toNat / 2 ^ 8)).toNat * 2 ^ 8 +
      (UInt8.ofNat r.p.prefixlen.toNat).toNat = r.p.prefixlen.toNat := by
    simp only [UInt8.toNat_ofNat']
    omega
  rw [announced, hdata, maskedPrefix, applyMaskIpv4_prefixlen]
  simp only [htons, List.cons_append, List.nil_append, hnum, haddr]

/-- The messages of one node. -/
theorem announced_sendEntries {t : RibTable} {routes : List DpRoute} (xid : UInt32) {k : List Bool}
    (hentries : entries t k = ((routes.filter fun r => r.p.key = k).map fun r => entryOf r.toRouteIpv4).reverse) :
    (sendEntries xid k (entries t k)).map announced =
      (((redistributed routes).filter fun r => r.p.key = k).map maskedPrefix).reverse := by
  have hsame : ((redistributed routes).filter fun r => r.p.key = k).map maskedPrefix =
      ((redistributed routes).filter fun r => r.p.key = k).map
        fun _ => announced (sibRouterSendRouteReply .ipv4RouteAdd xid k) := by
    refine List.map_congr_left fun r hr => ?_
    have hk : r.p.key = k := by simpa using (List.mem_filter.mp hr).2
    rw [← hk, announced_sendRouteReply]
  rw [sendEntries, hentries, hsame, redistributed, List.map_map, List.filter_reverse, List.map_reverse, List.filter_map,
    List.map_map, List.filter_filter, List.filter_filter]
  congr 1
  refine congrArg _ (List.filter_congr fun r _ => ?_)
  exact Bool.and_comm _ _

/-- The messages announce the routes that are redistributed, each one once. -/
theorem announced_perm {t : RibTable} {routes : List DpRoute} (h : Kept t) (xid : UInt32)
    (hentries : ∀ k, entries t k =
      ((routes.filter fun r => r.p.key = k).map fun r => entryOf r.toRouteIpv4).reverse) :
    ((t.top.nodes.flatMap fun b => sendEntries xid b (entries t b)).map announced).Perm
      ((redistributed routes).map maskedPrefix) := by
  have hnodup : t.top.nodes.Nodup := (Radix.nodes_pairwise h.ordered).imp fun hlt => ne_of_lt hlt
  have hmem : ∀ r ∈ redistributed routes, r.p.key ∈ t.top.nodes := by
    intro r hr
    refine h.mem_of_info fun hnone => ?_
    have hnil := hentries r.p.key
    rw [entries, hnone, Option.getD_none, eq_comm, List.reverse_eq_nil_iff, List.map_eq_nil_iff,
      List.filter_eq_nil_iff] at hnil
    exact hnil r (List.mem_of_mem_filter hr) (by simp)
  have hperm := (flatMap_filter_perm (fun r : DpRoute => r.p.key) hnodup hmem).map maskedPrefix
  rw [List.map_flatMap] at hperm
  rw [List.map_flatMap]
  refine List.Perm.trans (List.Perm.flatMap_left _ fun b _ => ?_) hperm
  rw [announced_sendEntries xid (hentries b)]
  exact List.reverse_perm _

/-- The prefixes of the nodes for which messages are sent. -/
def announcedNodes (t : RibTable) : List (List Bool) :=
  t.top.nodes.flatMap fun b => ((entries t b).filter fun newrib => newrib.distance ≠ distanceInfinity).map fun _ => b

theorem map_announcedNodes (t : RibTable) (xid : UInt32) :
    (announcedNodes t).map (sibRouterSendRouteReply .ipv4RouteAdd xid) =
      t.top.nodes.flatMap fun b => sendEntries xid b (entries t b) := by
  rw [announcedNodes, List.map_flatMap]
  refine congrArg (List.flatMap · _) (funext fun b => ?_)
  rw [List.map_map]
  rfl

/-- Whatever routes are added, a redistribution announces the masked prefix of each one whose distance is not infinite
just once. It leaves the table as it was, and the next one sends the same messages in the same order. -/
theorem redistribute_routes (routes : List DpRoute) :
    ∃ (t : RibTable) (nodes : List (List Bool)), ribAddAll routeTableInit routes = some t ∧
      ∀ xid, sibRouterRedistribute xid t = some (t, nodes.map (sibRouterSendRouteReply .ipv4RouteAdd xid)) ∧
        ((nodes.map (sibRouterSendRouteReply .ipv4RouteAdd xid)).map announced).Perm
          ((routes.filter fun r => r.distance ≠ distanceInfinity).map maskedPrefix) := by
  obtain ⟨t, hadd, hkept, hentries⟩ := ribAddAll_spec Kept.init routes
  have hnone : ∀ k, entries (routeTableInit : RibTable) k = [] := fun k => rfl
  simp only [hnone, List.append_nil] at hentries
  refine ⟨t, announcedNodes t, hadd, fun xid => ?_⟩
  rw [map_announcedNodes]
  exact ⟨sibRouterRedistribute_eq hkept xid, announced_perm hkept xid hentries⟩

end Harry.Transfer
