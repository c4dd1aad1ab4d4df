import Mathlib.Algebra.BigOperators.Group.List.Basic
import Harry.SiblingTransit

/-! The room in the buffers that LSAs are laid out in. None of the functions looks at the end of its buffer; that of
the Router-LSAs has a size limit, which it compares once for each interface. -/

namespace Harry.Originate

open Harry.Base Harry.Rfp Harry.Sibling Harry.Routes Harry.Spf Harry.Prefixes

/-- Writes that stay inside of a buffer. -/
def Within (l : List (Store UInt8)) : Prop :=
  ∀ st ∈ l, st.offset + st.bytes.length ≤ maxLsasize

/-- A call writes inside of its buffer only. -/
def Inside {α : Type} (x : Exec (Store UInt8) α) : Prop :=
  Within x.outs

section Inside

variable {α β : Type}

theorem within_append_iff {l m : List (Store UInt8)} : Within (l ++ m) ↔ Within l ∧ Within m := by
  simp only [Within, List.mem_append, or_imp, forall_and]

theorem inside_pure (a : α) : Inside (pure a : Exec (Store UInt8) α) := by
  intro st hst
  exact absurd hst (by simp)

theorem inside_bind_iff {x : Exec (Store UInt8) α} {f : α → Exec (Store UInt8) β} :
    Inside (x >>= f) ↔ Inside x ∧ ∀ a, x.result = some a → Inside (f a) := by
  cases hx : x.result with
  | none =>
      rw [Exec.bind_of_none f hx]
      exact ⟨fun h => ⟨h, by simp⟩, fun h => h.1⟩
  | some a =>
      rw [Exec.bind_of_some f hx]
      exact within_append_iff.trans ⟨fun h => ⟨h.1, fun b hb => Option.some.inj hb ▸ h.2⟩, fun h => ⟨h.1, h.2 a rfl⟩⟩

theorem inside_bind_of_result {x : Exec (Store UInt8) α} {f : α → Exec (Store UInt8) β} {a : α}
    (h : x.result = some a) : Inside (x >>= f) ↔ Inside x ∧ Inside (f a) := by
  rw [inside_bind_iff]
  exact and_congr_right fun _ => ⟨fun hall => hall a h, fun ha b hb => Option.some.inj (h.symm.trans hb) ▸ ha⟩

theorem inside_stores_iff {b : Buffer} {l : List (Store UInt8)} : Inside (stores b l) ↔ Within l := by
  have houts : (stores b l).outs = l := by
    rw [stores, Exec.outs_emits_bind, Exec.outs_pure, List.append_nil]
  rw [Inside, houts]

theorem inside_stores_bind_iff {b : Buffer} {l : List (Store UInt8)} {f : Buffer → Exec (Store UInt8) β} :
    Inside (stores b l >>= f) ↔ Within l ∧ Inside (f (l.foldl Memory.put b)) := by
  rw [inside_bind_of_result rfl, inside_stores_iff]

/-- The header is at the beginning of the buffer. -/
theorem inside_fillHeader (b : Buffer) (type : UInt16) (id advRouter seqnum : UInt32) (length : Nat) :
    Inside (fillHeader b type id advRouter seqnum length) := by
  rw [fillHeader, inside_stores_bind_iff]
  refine ⟨fun st hst => ?_, inside_pure _⟩
  simp only [List.mem_cons, List.not_mem_nil, or_false] at hst
  obtain rfl | rfl | rfl | rfl | rfl | rfl | rfl := hst <;> simp [htonl, htons, htons16, maxLsasize]

end Inside

section Prefixes

variable {rs : List Route} {op : Nat}

theorem sizeOf_perm {l m : List (List Bool)} (h : l.Perm m) : sizeOf l = sizeOf m :=
  List.Perm.sum_eq (h.map fun dest : List Bool => prefixSize dest.length)

theorem within_prefixesStores_iff (hrs : ∀ r ∈ rs, r.dest.length ≤ 128) (hop : op ≤ maxLsasize) :
    Within (prefixesStores op rs) ↔ op + sizeOf (rs.map Route.dest) ≤ maxLsasize := by
  induction rs generalizing op with
  | nil => exact iff_of_true (by simp [Within, prefixesStores]) hop
  | cons r rs ih =>
      have hbody := length_prefixBody (hrs r (by simp))
      have hfirst : Within (prefixStores op r) ↔ op + prefixSize r.dest.length ≤ maxLsasize := by
        simp only [Within, prefixStores, List.forall_mem_cons, List.not_mem_nil, false_imp_iff, implies_true, and_true,
          hbody, htons, List.length_cons, List.length_nil, prefixSize]
        omega
      rw [prefixesStores, within_append_iff, hfirst, List.map_cons, sizeOf_cons]
      constructor
      · rintro ⟨hr, hrest⟩
        have hsize := (ih (fun x hx => hrs x (by simp [hx])) hr).mp hrest
        omega
      · intro hsize
        have hr : op + prefixSize r.dest.length ≤ maxLsasize := by omega
        exact ⟨hr, (ih (fun x hx => hrs x (by simp [hx])) hr).mpr (by omega)⟩

/-- The routes that are connected to a link have room in a Link-LSA. -/
def ConnectedFits (oi : Interface) (dests : List (List Bool)) : Prop :=
  oi.linklocalAddr ≠ none → 44 + sizeOf dests ≤ maxLsasize

theorem inside_linkLsaOriginate_iff {s : Rtable} {gs : List (List Bool × List Addr)} (h : Rep s none gs)
    (oi : Interface) (options : List UInt8) (routerId seqnum : UInt32)
    (hle : ∀ a ∈ chain gs, (s.route a).dest.length ≤ 128) :
    Inside (linkLsaOriginate oi options routerId seqnum s) ↔
      ConnectedFits oi ((chain gs).map fun a => (s.route a).dest) := by
  rw [ConnectedFits]
  cases haddr : oi.linklocalAddr with
  | none => exact iff_of_true (by simp only [linkLsaOriginate, haddr]; exact inside_pure _) (by simp)
  | some linklocalAddr =>
      have hall : (allRoutes s).toOption = some ((chain gs).map s.route) := by rw [Rep.allRoutes h]; rfl
      have hrs : ∀ r ∈ (chain gs).map s.route, r.dest.length ≤ 128 := by
        intro r hr
        obtain ⟨a, ha, rfl⟩ := List.mem_map.mp hr
        exact hle a ha
      have hfixed : Within [⟨20, [oi.priority]⟩, ⟨21, sized 3 options⟩, ⟨24, sized 16 linklocalAddr⟩,
          ⟨40, htonl (UInt32.ofNat s.count)⟩] := by
        intro st hst
        simp only [List.mem_cons, List.not_mem_nil, or_false] at hst
        obtain rfl | rfl | rfl | rfl := hst <;> simp [htonl, sized, maxLsasize]
      have hrecords := @within_prefixesStores_iff _ 44 hrs (by decide)
      rw [List.map_map] at hrecords
      simp only [linkLsaOriginate, haddr, hall, Exec.deref_some_bind, inside_stores_bind_iff, hfixed, true_and, hrecords,
        ne_eq, reduceCtorEq, not_false_eq_true, true_imp_iff]
      exact and_iff_left (inside_bind_iff.mpr ⟨inside_fillHeader _ _ _ _ _ _, fun _ _ => inside_pure _⟩)

/-- The prefixes that are advertised on a link, each counted once, have room in an Intra-Area-Prefix-LSA, if there is to
be one. -/
def TransitFits (oi : Interface) (routerId : UInt32) (maxage : SpfLsa → Bool) (links : List LinkLsa) : Prop :=
  oi.state = .dr → oi.fullNeighbors ≠ [] →
    32 + sizeOf ((advertised oi routerId maxage links).map Ospf6Prefix.dest).dedup ≤ maxLsasize

theorem inside_intraPrefixLsaOriginateTransit_iff (oi : Interface) (routerId areaId seqnum : UInt32)
    (maxage : SpfLsa → Bool) {lsdb : List SpfLsa} {links : List LinkLsa}
    (hlsdb : (lsdb.filter fun lsa => lsa.header.type = lstypeLink) = links.map LinkLsa.lsa) :
    Inside (intraPrefixLsaOriginateTransit oi routerId areaId seqnum maxage lsdb) ↔
      TransitFits oi routerId maxage links := by
  have hfixed : Within [⟨22, htons16 lstypeNetwork⟩, ⟨24, htonl oi.ifindex⟩, ⟨28, htonl routerId⟩] := by
    intro st hst
    simp only [List.mem_cons, List.not_mem_nil, or_false] at hst
    obtain rfl | rfl | rfl := hst <;> simp [htonl, htons16, htons, maxLsasize]
  by_cases htransit : oi.state ≠ .dr ∨ oi.fullNeighbors = []
  · rw [intraPrefixLsaOriginateTransit, inside_stores_bind_iff, if_pos htransit]
    refine iff_of_true ⟨hfixed, inside_pure _⟩ fun hdr hfull => ?_
    exact absurd htransit (by simp [hdr, hfull])
  · simp only [not_or, ne_eq, not_not] at htransit
    obtain ⟨hdr, hfull⟩ := htransit
    obtain ⟨best, hsorted, hmem, heq⟩ := @intraPrefixLsaOriginateTransit_eq oi routerId areaId seqnum maxage lsdb links
      hlsdb hdr hfull
    have hperm : (best.map Route.dest).Perm ((advertised oi routerId maxage links).map Ospf6Prefix.dest).dedup := by
      refine (List.perm_ext_iff_of_nodup (hsorted.imp ne_of_lt) (List.nodup_dedup _)).mpr fun p => ?_
      rw [hmem, List.mem_dedup]
    have hsize : sizeOf (best.map Route.dest) =
        sizeOf ((advertised oi routerId maxage links).map Ospf6Prefix.dest).dedup :=
      sizeOf_perm hperm
    have hrs : ∀ r ∈ best, r.dest.length ≤ 128 := by
      intro r hr
      obtain ⟨p, -, hp⟩ := List.mem_map.mp ((hmem r.dest).mp (List.mem_map_of_mem hr))
      rw [← hp]
      exact p.le
    have hrecords := @within_prefixesStores_iff _ 32 hrs (by decide)
    have hfits : TransitFits oi routerId maxage links ↔ 32 + sizeOf (best.map Route.dest) ≤ maxLsasize := by
      rw [hsize]
      exact ⟨fun h => h hdr hfull, fun h _ _ => h⟩
    rw [heq, inside_stores_bind_iff, inside_stores_bind_iff, hrecords, hfits]
    refine ⟨fun h => h.2.1, fun h => ⟨hfixed, h, ?_⟩⟩
    split
    · exact inside_pure _
    · refine inside_stores_bind_iff.mpr ⟨fun st hst => ?_,
        inside_bind_iff.mpr ⟨inside_fillHeader _ _ _ _ _ _, fun _ _ => inside_pure _⟩⟩
      obtain rfl := List.mem_singleton.mp hst
      simp [htons, maxLsasize]

end Prefixes

/-! ### Router-LSAs -/

/-- An interface is described in a Router-LSA. -/
def Described (oi : Interface) : Prop :=
  oi.state ≠ .down ∧ oi.state ≠ .loopback ∧ oi.fullNeighbors ≠ []

instance decidableDescribed (oi : Interface) : Decidable (Described oi) :=
  inferInstanceAs (Decidable (_ ∧ _ ∧ _))

/-- The router is the designated one, or adjacent to it. -/
def Transit (oi : Interface) : Prop :=
  oi.state = .dr ∨ ((oi.neighborLookup oi.drouter).any fun on => on.state = .full) = true

instance decidableTransit (oi : Interface) : Decidable (Transit oi) :=
  inferInstanceAs (Decidable (_ ∨ _))

/-- The number of link descriptions of an interface. -/
def linkCount (oi : Interface) : Nat := if Transit oi then 1 else 0

/-- Link descriptions have room in Router-LSAs. There are so many in the LSA that is being filled, and so many for each
of the interfaces to come; an LSA with a size limit is closed in front of an interface if it has no room for one more
description, and where it has none for the first one nothing is done any more. -/
def RouterFits (sizeLimit : Nat) : Nat → List Nat → Prop
  | _, [] => True
  | n, d :: ds =>
    if sizeLimit ≠ 0 ∧ sizeLimit < 24 + 16 * (n + 1) then n = 0 ∨ (d ≤ 254 ∧ RouterFits sizeLimit d ds)
    else n + d ≤ 254 ∧ RouterFits sizeLimit (n + d) ds

instance decidableRouterFits (sizeLimit : Nat) : (n : Nat) → (ds : List Nat) → Decidable (RouterFits sizeLimit n ds)
  | _, [] => isTrue trivial
  | n, d :: ds =>
    have := decidableRouterFits sizeLimit d ds
    have := decidableRouterFits sizeLimit (n + d) ds
    inferInstanceAs (Decidable (ite _ _ _))

section Router

variable {sizeLimit routerId : UInt32} {seqnum : UInt32 → UInt32}

theorem length_describe (oi : Interface) : (describe routerId oi).length = linkCount oi := by
  rw [describe, ifIsPointopoint, if_neg (by decide), List.nil_append, ifIsBroadcast, if_pos rfl, broadcastLsdescs,
    linkCount]
  by_cases hdr : oi.state = .dr
  · simp [hdr, Transit]
  · rw [if_neg hdr]
    cases hlook : oi.neighborLookup oi.drouter with
    | none => simp [Transit, hdr, hlook]
    | some on => by_cases hstate : on.state = .full <;> simp [Transit, hdr, hlook, hstate, Option.filter]

theorem within_lsdescsStores_iff {ds : List RouterLsdesc} {lsdesc : Nat} (h : lsdesc ≤ maxLsasize) :
    Within (lsdescsStores lsdesc ds) ↔ lsdesc + 16 * ds.length ≤ maxLsasize := by
  induction ds generalizing lsdesc with
  | nil => exact iff_of_true (by simp [Within, lsdescsStores]) h
  | cons d ds ih =>
      have hfirst : Within (lsdescStores lsdesc d) ↔ lsdesc + 16 ≤ maxLsasize := by
        simp only [Within, lsdescStores, List.forall_mem_cons, List.not_mem_nil, false_imp_iff, implies_true, and_true,
          htons16, htons, htonl, List.length_cons, List.length_nil]
        omega
      rw [lsdescsStores, within_append_iff, hfirst, List.length_cons]
      constructor
      · rintro ⟨hd, hrest⟩
        have hsize := (ih hd).mp hrest
        omega
      · intro hsize
        have hd : lsdesc + 16 ≤ maxLsasize := by omega
        exact ⟨hd, (ih hd).mpr (by omega)⟩

/-- An interface is described behind `n` link descriptions. -/
theorem routerDescribe_spec {oi : Interface} {x : RouterState} {n : Nat} (hx : x.lsdesc = 24 + 16 * n)
    (hn : n ≤ 254) :
    (Inside (routerDescribe routerId oi x) ↔ n + linkCount oi ≤ 254) ∧
      ∃ y, (routerDescribe routerId oi x).result = some y ∧ y.lsdesc = 24 + 16 * (n + linkCount oi) := by
  have hstart : x.lsdesc ≤ maxLsasize := by
    rw [hx, maxLsasize]
    omega
  constructor
  · rw [routerDescribe, inside_stores_bind_iff, within_lsdescsStores_iff hstart, length_describe, hx, maxLsasize]
    refine (and_iff_left (inside_pure _)).trans ?_
    omega
  · refine ⟨_, rfl, ?_⟩
    change x.lsdesc + 16 * (describe routerId oi).length = _
    rw [length_describe, hx]
    omega

/-- A Router-LSA is originated, and the buffer is cleared for the next one. -/
theorem routerReset_spec {x : RouterState} {n : Nat} (hx : x.lsdesc = 24 + 16 * n) (hn : n ≤ 254) :
    Inside (routerReset x) ∧ ∃ y, (routerReset x).result = some y ∧ y.lsdesc = 24 + 16 * 0 := by
  refine ⟨inside_stores_bind_iff.mpr ⟨fun st hst => ?_, inside_pure _⟩, _, rfl, rfl⟩
  obtain rfl := List.mem_singleton.mp hst
  simp only [List.length_replicate, maxLsasize]
  omega

theorem routerInstance_spec (x : RouterState) : Inside (routerInstance routerId seqnum x) ∧
    ∃ y, (routerInstance routerId seqnum x).result = some y ∧ y.lsdesc = x.lsdesc :=
  ⟨inside_bind_iff.mpr ⟨inside_fillHeader _ _ _ _ _ _, fun _ _ => inside_pure _⟩, _, rfl, rfl⟩

/-- The loop over the interfaces stays inside of the buffer if and only if no LSA gets too many descriptions. -/
theorem inside_routerLoop_iff (ois : List Interface) {x : RouterState} {n : Nat} (hx : x.lsdesc = 24 + 16 * n)
    (hn : n ≤ 254) :
    Inside (routerLoop sizeLimit routerId seqnum ois x) ↔
      RouterFits sizeLimit.toNat n ((ois.filter fun oi => Described oi).map linkCount) := by
  induction ois generalizing x n with
  | nil => exact iff_of_true (inside_pure _) trivial
  | cons oi ois ih =>
      by_cases hi : Described oi
      · have hskip : ¬ (oi.state = .down ∨ oi.state = .loopback ∨ oi.fullNeighbors = []) := by
          simpa [Described] using hi
        have hzero : sizeLimit.toNat ≠ 0 ↔ sizeLimit ≠ 0 := by
          rw [Ne, Ne, ← UInt32.toNat_inj]
          rfl
        rw [List.filter_cons_of_pos (by simpa using hi), List.map_cons, RouterFits, routerLoop, if_neg hskip]
        by_cases hlimit : sizeLimit ≠ 0 ∧ sizeLimit.toNat < x.lsdesc + 16
        · have hlimit' : sizeLimit.toNat ≠ 0 ∧ sizeLimit.toNat < 24 + 16 * (n + 1) := ⟨hzero.mpr hlimit.1, by omega⟩
          rw [if_pos hlimit, if_pos hlimit']
          by_cases hempty : x.lsdesc = 24
          · rw [if_pos hempty]
            exact iff_of_true (inside_pure _) (.inl (by omega))
          · obtain ⟨hinstance, y, hy, hysize⟩ := @routerInstance_spec routerId seqnum x
            obtain ⟨hreset, z, hz, hzsize⟩ := routerReset_spec (hysize.trans hx) hn
            obtain ⟨hdescribe, w, hw, hwsize⟩ := @routerDescribe_spec routerId oi z 0 hzsize (by omega)
            rw [Nat.zero_add] at hdescribe hwsize
            rw [if_neg hempty, or_iff_right (by omega : ¬ n = 0), inside_bind_of_result hy, inside_bind_of_result hz,
              inside_bind_of_result hw, and_iff_right hinstance, and_iff_right hreset, hdescribe]
            exact and_congr_right fun hd => ih hwsize hd
        · have hlimit' : ¬ (sizeLimit.toNat ≠ 0 ∧ sizeLimit.toNat < 24 + 16 * (n + 1)) := by
            rw [hzero, ← (by omega : x.lsdesc + 16 = 24 + 16 * (n + 1))]
            exact hlimit
          obtain ⟨hdescribe, y, hy, hysize⟩ := @routerDescribe_spec routerId oi x n hx hn
          rw [if_neg hlimit, if_neg hlimit', inside_bind_of_result hy, hdescribe]
          exact and_congr_right fun hd => ih hysize hd
      · have hskip : oi.state = .down ∨ oi.state = .loopback ∨ oi.fullNeighbors = [] := by
          simp only [Described] at hi
          tauto
        rw [List.filter_cons_of_neg (by simpa using hi), routerLoop, if_pos hskip]
        exact ih hx hn

theorem inside_routerLsaOriginate_iff (bits : UInt8) (ifList : List Interface) :
    Inside (routerLsaOriginate sizeLimit routerId bits seqnum ifList) ↔
      RouterFits sizeLimit.toNat 0 ((ifList.filter fun oi => Described oi).map linkCount) := by
  have hfixed : Within [⟨21, [0, 0, 0x13]⟩, ⟨20, [bits]⟩] := by
    intro st hst
    simp only [List.mem_cons, List.not_mem_nil, or_false] at hst
    obtain rfl | rfl := hst <;> simp [maxLsasize]
  have hloop := fun b => @inside_routerLoop_iff sizeLimit routerId seqnum ifList ⟨b, 24, 0, []⟩ 0 rfl (by omega)
  rw [routerLsaOriginate, inside_stores_bind_iff, and_iff_right hfixed, inside_bind_iff, hloop]
  refine and_iff_left fun last _ => ?_
  cases last with
  | none => exact inside_pure _
  | some x =>
      dsimp only
      split
      · exact inside_pure _
      · exact inside_bind_iff.mpr ⟨(@routerInstance_spec routerId seqnum x).1, fun _ _ => inside_pure _⟩

end Router

/-- The LSAs stay inside of their buffers, whatever the interfaces, neighbors, connected routes and advertised prefixes
are, if and only if they have room there: 254 link descriptions in each of the Router-LSAs, and the records of the
connected routes, or of the prefixes that are advertised, in what is left of 4096 bytes. -/
theorem lsas_inside_iff (sizeLimit routerId : UInt32) (bits : UInt8) (seqnums : UInt32 → UInt32)
    (ifList : List Interface) (oi : Interface) (options : List UInt8) (seqnum areaId : UInt32)
    (maxage : SpfLsa → Bool) (ops : List Op) (s : Rtable) (c : Contents) (l : List Addr) (lsdb : List SpfLsa)
    (links : List LinkLsa) (hlegal : LegalRun empty .empty ops) (hs : ops.foldlM step empty = .ok s)
    (hc : ops.foldlM Contents.step .empty = .ok c) (hnodup : l.Nodup) (hl : ∀ a, a ∈ l ↔ ∃ p, a ∈ c.routes p)
    (hle : ∀ a ∈ l, (c.route a).dest.length ≤ 128)
    (hlsdb : (lsdb.filter fun lsa => lsa.header.type = lstypeLink) = links.map LinkLsa.lsa) :
    (Inside (routerLsaOriginate sizeLimit routerId bits seqnums ifList) ↔
        RouterFits sizeLimit.toNat 0 ((ifList.filter fun oi => Described oi).map linkCount)) ∧
      (Inside (linkLsaOriginate oi options routerId seqnum s) ↔ ConnectedFits oi (l.map fun a => (c.route a).dest)) ∧
      (Inside (intraPrefixLsaOriginateTransit oi routerId areaId seqnum maxage lsdb) ↔
        TransitFits oi routerId maxage links) := by
  refine ⟨inside_routerLsaOriginate_iff bits ifList, ?_,
    inside_intraPrefixLsaOriginateTransit_iff oi routerId areaId seqnum maxage hlsdb⟩
  have hempty : Tracks empty .empty [] := ⟨empty_rep, rfl, fun _ => rfl⟩
  obtain ⟨s', gs, hs', htracks⟩ := (hempty.run hlegal).2 c hc
  obtain rfl := Except.ok.inj (hs'.symm.trans hs)
  have hperm : (chain gs).Perm l := by
    refine (List.perm_ext_iff_of_nodup htracks.rep.nodup hnodup).mpr fun a => ?_
    rw [hl]
    simp only [← htracks.routes, htracks.rep.groupAt_eq, List.mem_filter, beq_iff_eq, exists_and_left, exists_eq',
      and_true]
  have hsize : sizeOf ((chain gs).map fun a => (s'.route a).dest) = sizeOf (l.map fun a => (c.route a).dest) := by
    rw [htracks.route]
    exact sizeOf_perm (hperm.map _)
  rw [inside_linkLsaOriginate_iff htracks.rep oi options routerId seqnum fun a ha => by
    rw [htracks.route]
    exact hle a (hperm.mem_iff.mp ha), ConnectedFits, ConnectedFits, hsize]

/-- A designated router with a full neighbor, a connected route and a prefix that its Link-LSA has twice. -/
theorem lsas_inside_iff_sample : ∃ s, sampleConnected.foldlM step empty = .ok s ∧
    Inside (routerLsaOriginate 1500 1 0 (fun _ => 1) [sampleInterface]) ∧
      Inside (linkLsaOriginate sampleInterface [] 1 1 s) ∧
      Inside (intraPrefixLsaOriginateTransit sampleInterface 1 0 1 (fun _ => false) [sampleLink.lsa]) := by
  have hlegal : LegalRun empty .empty sampleConnected := by decide
  have hlength : sampleConnected.foldlM step empty >>= allRoutes = .ok [sampleRoute [true, false] 1 7] := rfl
  cases hs : sampleConnected.foldlM step empty with
  | error e => exact absurd (congrArg (· >>= allRoutes) hs |>.symm.trans hlength) (by simp [bind, Except.bind])
  | ok s =>
      have hconnected (a : Addr) : a ∈ [0] ↔
          ∃ p, a ∈ (Function.update (fun _ : List Bool => ([] : List Addr)) [true, false] [0]) p := by
        rw [List.mem_singleton]
        constructor
        · rintro rfl
          exact ⟨[true, false], by simp⟩
        · rintro ⟨p, hp⟩
          by_cases hdest : p = [true, false]
          · subst hdest
            simpa using hp
          · rw [Function.update_of_ne hdest] at hp
            exact absurd hp List.not_mem_nil
      obtain ⟨hrouter, hlink, htransit⟩ := lsas_inside_iff 1500 1 0 (fun _ => 1) [sampleInterface] sampleInterface [] 1 0
        (fun _ => false) sampleConnected s _ [0] [sampleLink.lsa] [sampleLink] hlegal hs rfl (by decide) hconnected
        (by decide) rfl
      exact ⟨s, rfl, hrouter.mpr (by decide), hlink.mpr fun _ => by decide, htransit.mpr fun _ _ => by decide⟩

theorem length_flatMap_bytes (ps : List Ospf6Prefix) :
    (ps.flatMap Ospf6Prefix.bytes).length = sizeOf (ps.map Ospf6Prefix.dest) := by
  induction ps with
  | nil => rfl
  | cons p ps ih => rw [List.flatMap_cons, List.length_append, p.length_bytes, ih, List.map_cons, sizeOf_cons]

theorem at_lsaOf (type : UInt16) (pre mid post : List UInt8) :
    Memory.at (lsaOf type (pre ++ (mid ++ post))).bytes pre.length mid.length = mid := by
  refine List.ext_getElem Memory.length_at fun i hi hmid => ?_
  simp [Memory.at, lsaOf, List.getD_eq_getElem?_getD, List.getElem?_append_right, List.getElem?_append_left hmid, hmid]

/-- A Link-LSA with some prefixes. -/
def linkOf (advRouter : UInt32) (ps : List Ospf6Prefix) (h : 44 + sizeOf (ps.map Ospf6Prefix.dest) < 2 ^ 16) :
    LinkLsa where
  lsa :=
    let lsa := lsaOf lstypeLink
      (List.replicate 20 0 ++ (htonl (UInt32.ofNat ps.length) ++ (ps.flatMap Ospf6Prefix.bytes ++ [])))
    { lsa with header := { lsa.header with advRouter } }
  prefixes := ps
  type := rfl
  num := word_of_htonl (at_lsaOf lstypeLink (List.replicate 20 0) (htonl (UInt32.ofNat ps.length)) _)
  carries := by
    constructor
    · show (UInt16.ofNat (20 + _)).toNat - 20 = _
      rw [List.append_nil, List.length_append, List.length_append, length_flatMap_bytes, List.length_replicate,
        UInt16.toNat_ofNat']
      simp only [htonl, List.length_cons, List.length_nil]
      omega
    · have hrecords := at_lsaOf lstypeLink (List.replicate 20 0 ++ htonl (UInt32.ofNat ps.length))
        (ps.flatMap Ospf6Prefix.bytes) []
      rw [List.append_assoc, length_flatMap_bytes] at hrecords
      exact hrecords

/-- A prefix of 64 bits, the number `n` with its low bits first. -/
def numbered (n : Nat) : Ospf6Prefix where
  dest := (List.range 64).map n.testBit
  prefixOptions := 0
  prefixMetric := 0
  pos := by simp
  le := by simp

theorem sizeOf_numbered (l : List Nat) : sizeOf ((l.map numbered).map Ospf6Prefix.dest) = 12 * l.length := by
  induction l with
  | nil => rfl
  | cons n l ih =>
      have hfirst : prefixSize (numbered n).dest.length = 12 := by
        rw [numbered, List.length_map, List.length_range]
        rfl
      rw [List.map_cons, List.map_cons, sizeOf_cons, ih, hfirst, List.length_cons]
      omega

theorem nodup_numbered {l : List Nat} (hl : l.Nodup) (hlt : ∀ n ∈ l, n < 2 ^ 64) :
    ((l.map numbered).map Ospf6Prefix.dest).Nodup := by
  rw [List.map_map]
  refine hl.map_on fun n hn m hm heq => Nat.eq_of_testBit_eq fun i => ?_
  have heq : (List.range 64).map n.testBit = (List.range 64).map m.testBit := heq
  by_cases hi : i < 64
  · exact List.map_inj_left.mp heq i (List.mem_range.mpr hi)
  · have hpow : 2 ^ 64 ≤ 2 ^ i := Nat.pow_le_pow_right (by decide) (Nat.not_lt.mp hi)
    rw [Nat.testBit_lt_two_pow (Nat.lt_of_lt_of_le (hlt n hn) hpow),
      Nat.testBit_lt_two_pow (Nat.lt_of_lt_of_le (hlt m hm) hpow)]

/-- The Link-LSAs of a designated router and of its full neighbor, with 170 prefixes each. -/
def crowdedLinks : List LinkLsa :=
  [linkOf 1 ((List.range' 0 170).map numbered) (by rw [sizeOf_numbered, List.length_range']; decide),
    linkOf 2 ((List.range' 170 170).map numbered) (by rw [sizeOf_numbered, List.length_range']; decide)]

/-- Each Link-LSA has room, but the records of both go over the end of the buffer. -/
theorem lsas_not_inside : ¬ Inside (intraPrefixLsaOriginateTransit sampleInterface 1 0 1 (fun _ => false)
    (crowdedLinks.map LinkLsa.lsa)) := by
  have hlinks : ((crowdedLinks.map LinkLsa.lsa).filter fun lsa => lsa.header.type = lstypeLink) =
      crowdedLinks.map LinkLsa.lsa := by
    refine List.filter_eq_self.mpr fun lsa hlsa => ?_
    obtain ⟨link, -, rfl⟩ := List.mem_map.mp hlsa
    exact decide_eq_true link.type
  have hadvertised : advertised sampleInterface 1 (fun _ => false) crowdedLinks =
      (List.range' 0 340).map numbered := by
    have hcounts : (crowdedLinks.filter fun link => ¬ false = true ∧ Counts sampleInterface 1 link.lsa) = crowdedLinks :=
      rfl
    rw [advertised, hcounts, ← List.range'_append_1 (s := 0) (m := 170) (n := 170), List.map_append]
    simp [crowdedLinks, linkOf]
  rw [inside_intraPrefixLsaOriginateTransit_iff _ _ _ _ _ hlinks]
  intro h
  have hsize := h rfl (by decide)
  rw [hadvertised, (nodup_numbered List.nodup_range' fun n hn => ?_).dedup, sizeOf_numbered, List.length_range'] at hsize
  · exact absurd hsize (by decide)
  · have := List.mem_range'_1.mp hn
    omega

end Harry.Originate
