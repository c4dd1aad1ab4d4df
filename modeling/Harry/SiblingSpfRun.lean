import Mathlib.Algebra.Order.BigOperators.Group.List
import Mathlib.Algebra.Order.Group.Nat
import Mathlib.Algebra.Ring.Nat
import Harry.SiblingSpfTree

/-! The loop of `ospf6_spf_calculation`, and what the table of vertices says when it is done. Each candidate is either
dropped or settles a vertex; a vertex that is settled adds at most one candidate for each of its link descriptions. -/

namespace Harry.Spf

open Harry.Rfp Harry.Base Harry.Table Harry.Sibling Harry.Routes Harry.Queue

section Loop

variable {net : Topology} {routerId hostnum : UInt32} {table : SpfTable} {gs : List (List Bool × List Addr)}
  {settled : LsaKey → Option Distance} {queue : Pqueue Vertex} {v : Vertex}

/-- To every vertex that can be reached there is a path of the least cost that is not too long: its cost is below
`2 ^ 30`, and it takes fewer than 255 router hops. -/
def Bounded (net : Topology) (routerId : UInt32) : Prop :=
  ∀ k c n, Path net routerId k c n →
    ∃ c' n', Path net routerId k c' n' ∧ (∀ c'' n'', Path net routerId k c'' n'' → c' ≤ c'') ∧ c' < 2 ^ 30 ∧ n' < 255

/-- A distance that is the least one is that of a path of least cost, and not too long. -/
theorem Bounded.least (hb : Bounded net routerId) {root : SpfLsa}
    (hroot : lookup net.lsdb (rootKey routerId) = some root) {k : LsaKey} {x : Distance}
    (h : Least (graph net) (rootKey routerId) (toLex (0, 0)) k x) :
    Path net routerId k (ofLex x).1 (ofLex x).2 ∧ (∀ c n, Path net routerId k c n → (ofLex x).1 ≤ c) ∧
      (ofLex x).1 < 2 ^ 30 ∧ (ofLex x).2 < 255 := by
  have hpath := path_of_reaches hroot h.1
  have hle : ∀ c n, Path net routerId k c n → x ≤ toLex (c, n) := fun c n hc => h.2 _ (reaches_of_path hc)
  obtain ⟨c, n, hc, hleast, hcost, hhops⟩ := hb k _ _ hpath
  have hx := hle c n hc
  have hxc := hleast _ _ hpath
  rw [Prod.Lex.le_iff] at hx
  simp only [ofLex_toLex] at hx
  refine ⟨hpath, fun c' n' hc' => ?_, by omega, by omega⟩
  have hx' := hle c' n' hc'
  rw [Prod.Lex.le_iff] at hx'
  simp only [ofLex_toLex] at hx'
  omega

/-- How many link descriptions there are of the vertices that are not settled. -/
def pending (net : Topology) (settled : LsaKey → Option Distance) : Nat :=
  (net.lsdb.map fun lsa =>
    if (settled lsa.header.key).isNone then (lsdescs (vertexType lsa) lsa).length else 0).sum

theorem pending_update (hv : lookup net.lsdb v.lsa.header.key = some v.lsa)
    (hnone : settled v.lsa.header.key = none) (x : Distance) :
    pending net (Function.update settled v.lsa.header.key (some x)) + (lsdescs (vertexType v.lsa) v.lsa).length ≤
      pending net settled := by
  have hmem := (lookup_key hv).1
  simp only [pending]
  generalize net.lsdb = l at hmem
  have hle : ∀ lsa : SpfLsa, (if (Function.update settled v.lsa.header.key (some x) lsa.header.key).isNone then
      (lsdescs (vertexType lsa) lsa).length else 0) ≤
        if (settled lsa.header.key).isNone then (lsdescs (vertexType lsa) lsa).length else 0 := by
    intro lsa
    by_cases hk : lsa.header.key = v.lsa.header.key
    · rw [hk, Function.update_self, if_neg (by simp)]
      exact Nat.zero_le _
    · rw [Function.update_of_ne hk]
  induction l with
  | nil => exact absurd hmem List.not_mem_nil
  | cons w l ih =>
      simp only [List.map_cons, List.sum_cons]
      obtain rfl | hmem := List.mem_cons.mp hmem
      · have hrest : (l.map fun lsa : SpfLsa =>
            if (Function.update settled v.lsa.header.key (some x) lsa.header.key).isNone then
              (lsdescs (vertexType lsa) lsa).length else 0).sum ≤
            (l.map fun lsa : SpfLsa => if (settled lsa.header.key).isNone then
              (lsdescs (vertexType lsa) lsa).length else 0).sum :=
          List.sum_le_sum fun lsa _ => hle lsa
        rw [Function.update_self, if_neg (by simp), if_pos (by simp [hnone])]
        omega
      · have hw := hle w
        have ih := ih hmem
        omega

/-- The loop comes to an end with all vertices settled that can be reached. -/
theorem spfLoop_eq (hostnum : UInt32) (hs : net.Sound) (hb : Bounded net routerId) {root : SpfLsa}
    (hroot : lookup net.lsdb (rootKey routerId) = some root) {n : Nat} (hi : Installed net settled table gs)
    (hc : Candidates net queue)
    (hsearch : Search (graph net) (rootKey routerId) (toLex (0, 0)) settled (queue.contents.map Vertex.view))
    (hn : queue.size + pending net settled ≤ n) :
    ∃ table' gs' settled', spfLoop net hostnum n table queue = .ok table' ∧ Installed net settled' table' gs' ∧
      Search (graph net) (rootKey routerId) (toLex (0, 0)) settled' 0 := by
  have hdone : queue.size = 0 → queue.contents = 0 := by
    intro hsize
    simp [Pqueue.contents, hsize]
  induction n generalizing table gs settled queue with
  | zero =>
      have hsize : queue.size = 0 := by omega
      rw [hdone hsize] at hsearch
      exact ⟨table, gs, settled, by rw [spfLoop, if_pos hsize], hi, hsearch⟩
  | succ n ih =>
      rw [spfLoop]
      by_cases hsize : queue.size = 0
      · rw [hdone hsize] at hsearch
        exact ⟨table, gs, settled, by rw [if_pos hsize], hi, hsearch⟩
      · rw [if_neg hsize]
        obtain ⟨hcontents, hmin, hvalid⟩ := hc.valid.dequeue (Nat.pos_of_ne_zero hsize)
        have hsize' : (pqueueDequeue vertexCmp queue).2.size = queue.size - 1 := rfl
        generalize pqueueDequeue vertexCmp queue = d at hcontents hmin hvalid hsize'
        obtain ⟨v, rest⟩ := d
        simp only at hcontents hmin hvalid hsize' ⊢
        rw [hcontents] at hmin
        have hv : v.Made net := hc.made v (by rw [hcontents]; exact Multiset.mem_cons_self _ _)
        have hrest : Candidates net rest := by
          refine ⟨hvalid, fun x hx => hc.made x ?_, fun x hx => hc.near x ?_⟩ <;>
            exact hcontents ▸ Multiset.mem_cons_of_mem hx
        rw [hcontents, Multiset.map_cons] at hsearch
        cases hsettled : settled v.lsa.header.key with
        | some x =>
            have hle := hsearch.ordered _ _ hsettled _ (Multiset.mem_cons_self _ _)
            obtain ⟨table', hinstall, hi'⟩ := Installed.merge hostnum hi hv hsettled hle
            have hdrop := hsearch.drop (by rw [hsettled]; exact Option.some_ne_none _)
            obtain ⟨t, gs', settled', ht, h'⟩ := ih hi' hrest hdrop (by omega) (by
              intro hzero
              simp [Pqueue.contents, hzero])
            refine ⟨t, gs', settled', ?_, h'⟩
            simp only [hinstall, bind, Except.bind]
            exact ht
        | none =>
            have hminview : ∀ x ∈ rest.contents.map Vertex.view, v.distance ≤ x.2 := by
              intro x hx
              obtain ⟨w, hw, rfl⟩ := Multiset.mem_map.mp hx
              exact hmin w (Multiset.mem_cons_of_mem hw)
            have hleast := hsearch.least_of_first (grows_graph net) hminview hsettled
            obtain ⟨-, -, hcost, hhops⟩ := hb.least hroot hleast
            obtain ⟨table', gs', hinstall, hi'⟩ := Installed.install hostnum hi hv hsettled
            obtain ⟨queue', hvisit, hc', hsize'', hmap⟩ :=
              visitLinks_eq hs hcost hhops (lsdescs v.type v.lsa) hrest
            have hgraph : (graph net v.lsa.header.key).map (fun e => (e.1, e.2 v.distance)) =
                ((lsdescs v.type v.lsa).filterMap (link net v)).map
                  fun x => (x.1.header.key, advance x.2.1 x.2.2 v.distance) := by
              have hlinks : links net (newVertex (vertexType v.lsa) v.lsa) = links net v :=
                links_congr hv.type.symm rfl
              rw [graph, hv.found]
              simp only [hlinks, List.map_map]
              rfl
            have hsettle := hsearch.settle (grows_graph net) hminview hsettled
            rw [hgraph] at hsettle
            have hpending := pending_update (v := v) hv.found hsettled v.distance
            have hlength := List.length_filterMap_le (link net v) (lsdescs v.type v.lsa)
            rw [← hv.type] at hpending
            obtain ⟨t, gs'', settled', ht, h'⟩ := ih hi' hc' (by rw [hmap]; exact hsettle) (by omega) (by
              intro hzero
              simp [Pqueue.contents, hzero])
            refine ⟨t, gs'', settled', ?_, h'⟩
            simp only [hinstall, bind, Except.bind, if_true, hvisit]
            exact ht

end Loop

/-! ### The result -/

/-- The routes of a table are the vertices that can be reached from the root, each with the least cost of a path. -/
structure ShortestPaths (net : Topology) (routerId : UInt32) (table : SpfTable) (l : List Addr) : Prop where
  nodup : l.Nodup
  reached : ∀ k, (∃ a ∈ l, (table.routes.route a).path.origin = LsaKey.origin k) ↔ ∃ c n, Path net routerId k c n
  single : ∀ a ∈ l, ∀ b ∈ l, (table.routes.route a).path.origin = (table.routes.route b).path.origin → a = b
  vertex : ∀ a ∈ l, ∃ k, (table.routes.route a).path.origin = LsaKey.origin k ∧
    (table.routes.route a).dest = linkstatePrefix k.advRouter k.id ∧
    (∃ n, Path net routerId k (table.routes.route a).path.cost.toNat n) ∧
    ∀ c n, Path net routerId k c n → (table.routes.route a).path.cost.toNat ≤ c

section Result

variable {net : Topology} {routerId hostnum : UInt32} {table : SpfTable} {gs : List (List Bool × List Addr)}

/-- Without a Router-LSA of its own a router reaches nothing. -/
theorem not_path (h : lookup net.lsdb (rootKey routerId) = none) {k : LsaKey} {c n : Nat} :
    ¬ Path net routerId k c n := by
  intro hp
  induction hp with
  | root hroot => exact absurd (h.symm.trans hroot) (by simp)
  | link _ _ _ ih => exact ih

theorem Installed.init (h : table.Kept []) : Installed net (fun _ => none) table [] :=
  ⟨h, by simp, by simp, by simp [groupAt]⟩

/-- What is installed when the search is over. -/
theorem Installed.shortest {settled : LsaKey → Option Distance} {root : SpfLsa} (h : Installed net settled table gs)
    (hs : Search (graph net) (rootKey routerId) (toLex (0, 0)) settled 0)
    (hroot : lookup net.lsdb (rootKey routerId) = some root) (hb : Bounded net routerId) :
    ShortestPaths net routerId table (chain gs) := by
  have hreached : ∀ k, settled k ≠ none ↔ ∃ c n, Path net routerId k c n := by
    intro k
    rw [hs.reaches_iff (grows_graph net)]
    constructor
    · rintro ⟨l, hl⟩
      exact ⟨_, _, path_of_reaches hroot hl⟩
    · rintro ⟨c, n, hp⟩
      exact ⟨_, reaches_of_path hp⟩
  refine ⟨h.kept.rep.nodup, fun k => ?_, fun a ha b hb hab => ?_, fun a ha => ?_⟩
  · rw [← hreached]
    refine ⟨?_, h.filled k⟩
    rintro ⟨a, ha, horigin⟩
    obtain ⟨lsa, -, -, horigin', -, hsettled⟩ := h.entry a ha
    rw [LsaKey.origin_inj (horigin.symm.trans horigin'), hsettled]
    exact Option.some_ne_none _
  · obtain ⟨lsa, -, -, horigin, hdest, -⟩ := h.entry a ha
    obtain ⟨lsa', -, -, horigin', hdest', -⟩ := h.entry b hb
    have hkey := LsaKey.origin_inj (horigin.symm.trans (hab.trans horigin'))
    simp only [LsaHeader.key, LsaKey.mk.injEq] at hkey
    have hdest : (table.routes.route b).dest = (table.routes.route a).dest := by
      rw [hdest, hdest', hkey.2.1, hkey.2.2]
    have hmem : ∀ c ∈ chain gs, (table.routes.route c).dest = (table.routes.route a).dest →
        c ∈ groupAt gs (table.routes.route a).dest := by
      intro c hc hcd
      rw [h.kept.rep.groupAt_eq, List.mem_filter, beq_iff_eq]
      exact ⟨hc, hcd⟩
    obtain ⟨x, hx⟩ := List.length_eq_one_iff.mp
      (le_antisymm (h.single _) (List.length_pos_of_mem (hmem a ha rfl)))
    have hax := hmem a ha rfl
    have hbx := hmem b hb hdest
    rw [hx, List.mem_singleton] at hax hbx
    exact hax.trans hbx.symm
  · obtain ⟨lsa, -, -, horigin, hdest, hsettled⟩ := h.entry a ha
    obtain ⟨hpath, hleast, -, -⟩ := hb.least hroot (hs.least _ _ hsettled)
    exact ⟨lsa.header.key, horigin, hdest, ⟨_, hpath⟩, hleast⟩

/-- `ospf6_spf_calculation` comes to an end without a failed assertion, whatever the last calculation has left, and
finds the shortest paths: the table then has one route for each vertex that can be reached from the root over links that
are present in both directions, with the least cost of a path to it. -/
theorem spfCalculation_shortest (hs : net.Sound) (hb : Bounded net routerId) (ht : Left table) (hostnum : UInt32)
    {n : Nat} (hn : (net.lsdb.map fun lsa => (lsdescs (vertexType lsa) lsa).length).sum < n) :
    ∃ table' gs, spfCalculation n net routerId table hostnum = .ok table' ∧ table'.Kept gs ∧
      ShortestPaths net routerId table' (chain gs) := by
  obtain ⟨gs₀, hgs₀⟩ := ht.kept
  obtain ⟨table₀, hfinish, hkept⟩ := hgs₀.finish
  cases hroot : lookup net.lsdb (rootKey routerId) with
  | none =>
      refine ⟨table₀, [], ?_, hkept, List.nodup_nil, fun k => ?_, by simp, by simp⟩
      · rw [rootKey] at hroot
        simp only [spfCalculation, hfinish, bind, Except.bind, hroot]
        rfl
      · simp [not_path hroot]
  | some root =>
      have hkey := (lookup_key hroot).2
      have hproper : root.Proper := by
        simp only [LsaHeader.key, rootKey, LsaKey.mk.injEq] at hkey
        exact .inl ⟨hkey.1, hkey.2.1⟩
      have hmade : ({ newVertex (vertexType root) root with nexthop := [⟨0, loopback⟩] } : Vertex).Made net :=
        ⟨hproper, lookup_self hroot, rfl, rfl⟩
      have hempty : Candidates net pqueueCreate := ⟨valid_create, by simp, by simp⟩
      have hc := hempty.enqueue hmade (by simp [Vertex.Near, newVertex])
      have hsearch : Search (graph net) (rootKey routerId) (toLex (0, 0)) (fun _ => none)
          ((pqueueEnqueue vertexCmp { newVertex (vertexType root) root with nexthop := [⟨0, loopback⟩] }
            pqueueCreate).contents.map Vertex.view) := by
        rw [contents_enqueue, contents_create, Multiset.map_cons, Multiset.map_zero]
        have hview : ({ newVertex (vertexType root) root with nexthop := [⟨0, loopback⟩] } : Vertex).view =
            (rootKey routerId, toLex (0, 0)) := congrArg (·, _) hkey
        rw [hview]
        exact search_init
      obtain ⟨table', gs, settled, hloop, hi, hdone⟩ := spfLoop_eq hostnum hs hb hroot (n := n)
        (.init hkept) hc hsearch (by simp only [pqueueEnqueue, pqueueCreate, pending, Option.isNone_none, if_true]; omega)
      refine ⟨table', gs, ?_, hi.kept, hi.shortest hdone hroot hb⟩
      rw [rootKey] at hroot
      simp only [spfCalculation, hfinish, bind, Except.bind, hroot, vertexCreate_eq hproper]
      exact hloop

end Result

/-- A router with a point-to-point link of cost 10. -/
def sampleLsa (advRouter nbr : UInt8) : SpfLsa where
  header := ⟨lstypeRouter, 0, advRouter.toUInt32, 1, 0, 40⟩
  bytes i := [0, 0, 0, 0, 1, 0, 0, 10, 0, 0, 0, 1, 0, 0, 0, 1, 0, 0, 0, nbr].getD i 0

/-- Two routers with a link between them. -/
def sampleNet : Topology :=
  ⟨[sampleLsa 1 2, sampleLsa 2 1], fun _ => none⟩

theorem sampleNet_path {k : LsaKey} {c n : Nat} (h : Path sampleNet 1 k c n) :
    k = (sampleLsa 1 2).header.key ∨ k = (sampleLsa 2 1).header.key ∧ 10 ≤ c := by
  induction h with
  | root => exact .inl rfl
  | @link k c n v x h hv hx ih =>
      obtain rfl | ⟨rfl, hc⟩ := ih
      · obtain rfl : sampleLsa 1 2 = v := Option.some.inj hv
        obtain rfl : x = (sampleLsa 2 1, 10, 1) := List.mem_singleton.mp hx
        exact .inr ⟨rfl, Nat.le_add_left _ _⟩
      · obtain rfl : sampleLsa 2 1 = v := Option.some.inj hv
        obtain rfl : x = (sampleLsa 1 2, 10, 1) := List.mem_singleton.mp hx
        exact .inl rfl

theorem sampleNet_bounded : Bounded sampleNet 1 := by
  intro k c n h
  have hroot : Path sampleNet 1 (sampleLsa 1 2).header.key 0 0 := .root rfl
  obtain rfl | ⟨rfl, -⟩ := sampleNet_path h
  · exact ⟨0, 0, hroot, fun c' n' _ => Nat.zero_le _, by decide, by decide⟩
  · refine ⟨10, 1, ?_, fun c' n' hc' => ?_, by decide, by decide⟩
    · exact hroot.link rfl (x := (sampleLsa 2 1, 10, 1)) (List.mem_singleton.mpr rfl)
    · obtain heq | ⟨-, hle⟩ := sampleNet_path hc'
      · exact absurd heq (by decide)
      · exact hle

theorem spfCalculation_shortest_two_routers :
    ∃ table' gs, spfCalculation 3 sampleNet 1 spfTableCreate 0 = .ok table' ∧ table'.Kept gs ∧
      ShortestPaths sampleNet 1 table' (chain gs) :=
  spfCalculation_shortest ⟨by simp [sampleNet, sampleLsa, lstypeRouter], by
    simp [sampleNet, sampleLsa, lstypeRouter, lstypeNetwork]⟩ sampleNet_bounded .create 0 (by decide)

end Harry.Spf
