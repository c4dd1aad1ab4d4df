import Mathlib.Data.Prod.Lex
import Harry.BaseSearch
import Harry.SiblingSpf

/-! `ospf6_spf_calculation` finds the shortest paths. The candidates are ordered by their cost, and by their router hops
where the costs are equal; no link makes a path shorter in this order. So the calculation is a search as in
`Harry.BaseSearch`, and the assertions in `ospf6_spf_install` hold because no candidate is nearer than what is
installed. -/

namespace Harry.Spf

open Harry.Rfp Harry.Base Harry.Table Harry.Sibling Harry.Routes Harry.Queue

/-- A cost and a number of router hops, in this order. -/
abbrev Distance := Nat ×ₗ Nat

def Vertex.distance (v : Vertex) : Distance :=
  toLex (v.cost.toNat, v.hops.toNat)

/-- How far it is over a link. -/
def advance (m d : Nat) (x : Distance) : Distance :=
  toLex ((ofLex x).1 + m, (ofLex x).2 + d)

/-- The graph of the area. -/
def graph (net : Topology) (k : LsaKey) : List (LsaKey × (Distance → Distance)) :=
  match lookup net.lsdb k with
  | none => []
  | some v => (links net (newVertex (vertexType v) v)).map fun x => (x.1.header.key, advance x.2.1 x.2.2)

theorem grows_graph (net : Topology) : Grows (graph net) := by
  have hadvance : ∀ u, ∀ e ∈ graph net u, ∃ m d, e.2 = advance m d := by
    intro u e he
    rw [graph] at he
    split at he
    · simp at he
    · obtain ⟨x, -, rfl⟩ := List.mem_map.mp he
      exact ⟨_, _, rfl⟩
  constructor
  · intro u e he k
    obtain ⟨m, d, h⟩ := hadvance u e he
    rw [h, Prod.Lex.le_iff]
    simp only [advance, ofLex_toLex]
    omega
  · intro u e he k l hkl
    obtain ⟨m, d, h⟩ := hadvance u e he
    rw [Prod.Lex.le_iff] at hkl
    rw [h, Prod.Lex.le_iff]
    simp only [advance, ofLex_toLex]
    omega

section Distances

variable {net : Topology} {routerId : UInt32}

/-- The key of the Router-LSA of the router that calculates. -/
def rootKey (routerId : UInt32) : LsaKey := ⟨lstypeRouter, 0, routerId⟩

theorem path_of_reaches {root : SpfLsa} (hroot : lookup net.lsdb (rootKey routerId) = some root) {k : LsaKey}
    {x : Distance} (h : Reaches (graph net) (rootKey routerId) (toLex (0, 0)) k x) :
    Path net routerId k (ofLex x).1 (ofLex x).2 := by
  induction h with
  | root => exact .root hroot
  | @step u l e hu he ih =>
      rw [graph] at he
      split at he
      · simp at he
      · next v hv =>
          obtain ⟨y, hy, rfl⟩ := List.mem_map.mp he
          exact .link ih hv hy

theorem reaches_of_path {k : LsaKey} {c n : Nat} (h : Path net routerId k c n) :
    Reaches (graph net) (rootKey routerId) (toLex (0, 0)) k (toLex (c, n)) := by
  induction h with
  | root => exact .root
  | @link k c n v x h hv hx ih =>
      have he : (x.1.header.key, advance x.2.1 x.2.2) ∈ graph net k := by
        rw [graph, hv]
        exact List.mem_map_of_mem hx
      exact ih.step he

theorem intDiff_eq {a b : UInt32} (ha : a.toNat < 2 ^ 31) (hb : b.toNat < 2 ^ 31) :
    intDiff a b = a.toNat - b.toNat := by
  have ha' : a.toBitVec.toInt = a.toNat :=
    BitVec.toInt_eq_toNat_of_lt (by simpa using (by omega : 2 * a.toNat < 2 ^ 32))
  have hb' : b.toBitVec.toInt = b.toNat :=
    BitVec.toInt_eq_toNat_of_lt (by simpa using (by omega : 2 * b.toNat < 2 ^ 32))
  rw [intDiff, UInt32.toBitVec_sub, BitVec.toInt_sub, ha', hb']
  apply Int.bmod_eq_of_le <;> omega

/-- A vertex near enough for the costs to be compared. -/
def Vertex.Near (v : Vertex) : Prop :=
  v.cost.toNat < 2 ^ 31

/-- `ospf6_vertex_cmp` goes by the distance. -/
theorem goesBy_vertexCmp {va vb : Vertex} (ha : va.Near) (hb : vb.Near) :
    GoesBy vertexCmp Vertex.distance va vb := by
  have hcost : va.cost = vb.cost ↔ va.cost.toNat = vb.cost.toNat := UInt32.toNat_inj.symm
  simp only [GoesBy, Prod.Lex.lt_iff, Vertex.distance, ofLex_toLex, vertexCmp]
  by_cases h : va.cost = vb.cost
  · rw [if_neg (not_not.mpr h)]
    have h := hcost.mp h
    omega
  · rw [if_pos h, intDiff_eq ha hb]
    have h := mt hcost.mpr h
    omega

end Distances

section Candidates

variable {net : Topology} {v : Vertex} {w : SpfLsa} {d : Lsdesc}

/-- A vertex as the calculation makes it. -/
structure Vertex.Made (net : Topology) (v : Vertex) : Prop where
  proper : v.lsa.Proper
  found : lookup net.lsdb v.lsa.header.key = some v.lsa
  type : v.type = vertexType v.lsa
  vertexId : v.vertexId = linkstatePrefix v.lsa.header.advRouter v.lsa.header.id

/-- A candidate, where its vertex can be made. -/
theorem candidate_of_create (hcreate : vertexCreate w = .ok (newVertex (vertexType w) w))
    (hrouter : v.type = .network → w.header.type = lstypeRouter) :
    ∃ l, candidate net v d w = .ok { newVertex (vertexType w) w with
      cost := if v.type = .router then v.cost + d.metric else v.cost
      hops := if v.type = .router then v.hops + (if vertexType w = .network then 0 else 1) else v.hops + 1
      nexthop := l } := by
  let c : Vertex := { newVertex (vertexType w) w with
    cost := if v.type = .router then v.cost + d.metric else v.cost
    hops := if v.type = .router then v.hops + (if vertexType w = .network then 0 else 1) else v.hops + 1 }
  have hcandidate : candidate net v d w =
      if c.hops = 0 then pure { c with nexthop := [⟨d.ifid, List.replicate 16 0⟩] }
      else if c.hops = 1 ∧ v.hops = 0 then nexthopCalc net c v d
      else pure { c with nexthop := setNexthops v.nexthop } := by
    rw [candidate, hcreate]
    by_cases hv : v.type = .router
    · simp only [bind, Except.bind, c, hv, if_true]
      rfl
    · simp only [bind, Except.bind, c, hv, if_false]
  suffices h : ∃ l, candidate net v d w = .ok { c with nexthop := l } from h
  rw [hcandidate]
  split_ifs with h0 h1
  · exact ⟨_, rfl⟩
  · -- the next hops are worked out for routers only
    have hctype : c.type = .router := by
      by_contra hne
      have hnet : vertexType w = .network := by
        cases htype : vertexType w with
        | router => exact absurd htype hne
        | network => rfl
      by_cases hvt : v.type = .router
      · refine h0 ?_
        simp only [c, hvt, hnet, if_true, h1.2]
        rfl
      · have hvn : v.type = .network := by
          cases htype : v.type with
          | router => exact absurd htype hvt
          | network => rfl
        rw [vertexType_router (hrouter hvn)] at hnet
        exact absurd hnet (by decide)
    rw [nexthopCalc, if_neg (not_not.mpr hctype)]
    simp only []
    split
    · exact ⟨c.nexthop, rfl⟩
    · exact ⟨_, rfl⟩
  · exact ⟨_, rfl⟩

theorem candidate_eq (hs : net.Sound) (hd : lsdescLsa net d v = some w) :
    ∃ c, candidate net v d w = .ok c ∧ c.Made net ∧ c.lsa = w ∧
      c.cost = (if v.type = .router then v.cost + d.metric else v.cost) ∧
      c.hops = (if v.type = .router then v.hops + (if vertexType w = .network then 0 else 1) else v.hops + 1) := by
  obtain ⟨hfound, hproper, hrouter⟩ := lsdescLsa_proper hs hd
  obtain ⟨l, hl⟩ := candidate_of_create (vertexCreate_eq hproper) hrouter
  exact ⟨_, hl, ⟨hproper, hfound, rfl, rfl⟩, rfl, rfl, rfl⟩

/-- What a search knows of a candidate. -/
def Vertex.view (v : Vertex) : LsaKey × Distance :=
  (v.lsa.header.key, v.distance)

theorem metric_lt (d : Lsdesc) : d.metric.toNat < 2 ^ 16 := by
  have h1 := (d.lsa.bytes (d.offset + 2)).toNat_lt
  have h2 := (d.lsa.bytes (d.offset + 3)).toNat_lt
  rw [Lsdesc.metric, UInt32.toNat_ofNat', Nat.mod_eq_of_lt] <;> omega

/-- What a link leads to, if it leads anywhere. -/
theorem visitLink_eq (hs : net.Sound) (hcost : v.cost.toNat < 2 ^ 30) (hhops : v.hops.toNat < 255)
    (queue : Pqueue Vertex) (d : Lsdesc) :
    (link net v d = none ∧ visitLink net v queue d = .ok queue) ∨
    ∃ x c, link net v d = some x ∧ visitLink net v queue d = .ok (pqueueEnqueue vertexCmp c queue) ∧ c.Made net ∧
      c.Near ∧ c.view = (x.1.header.key, advance x.2.1 x.2.2 v.distance) := by
  cases hd : lsdescLsa net d v with
  | none => exact .inl ⟨by simp [link, hd], by simp [visitLink, hd]⟩
  | some w =>
      have hproper := lsdescLsa_proper hs hd
      have hnn : ¬ (w.header.type = lstypeNetwork ∧ v.type = .network) := by
        rintro ⟨hw, hvt⟩
        exact absurd (hw.symm.trans (hproper.2.2 hvt)) (by decide)
      have hback := lsdescBacklink_eq (d := d) hnn
      have hlink : link net v d = if (lsdescs (vertexType w) w).any (isBacklink w d v) then
          some (w, if v.type = .router then (d.metric.toNat, if vertexType w = .network then 0 else 1) else (0, 1))
          else none := by
        rw [link, hd]
        rfl
      cases hany : (lsdescs (vertexType w) w).any (isBacklink w d v) with
      | false =>
          rw [hany] at hback hlink
          refine .inl ⟨hlink, ?_⟩
          simp only [visitLink, hd, hback, bind, Except.bind]
          rfl
      | true =>
          obtain ⟨c, hc, hmade, hlsa, hccost, hchops⟩ := candidate_eq hs hd
          have hmetric := metric_lt d
          rw [hany] at hback hlink
          refine .inr ⟨_, c, hlink, ?_, hmade, ?_, ?_⟩
          · simp only [visitLink, hd, hback, bind, Except.bind, if_true, hc]
            rfl
          · rw [Vertex.Near, hccost]
            split_ifs
            · rw [UInt32.toNat_add, Nat.mod_eq_of_lt] <;> omega
            · omega
          · rw [Vertex.view, hlsa]
            refine congrArg _ ?_
            rw [Vertex.distance, advance, Vertex.distance, hccost, hchops]
            simp only [ofLex_toLex]
            by_cases hvt : v.type = .router
            · simp only [if_pos hvt]
              have hsum : (v.cost + d.metric).toNat = v.cost.toNat + d.metric.toNat := by
                rw [UInt32.toNat_add, Nat.mod_eq_of_lt]
                omega
              rw [hsum]
              split_ifs
              · rw [UInt8.add_zero, Nat.add_zero]
              · rw [UInt8.toNat_add, Nat.mod_eq_of_lt] <;> simp
                omega
            · simp only [if_neg hvt, Nat.add_zero]
              rw [UInt8.toNat_add, Nat.mod_eq_of_lt] <;> simp
              omega

/-- The candidates of a queue. -/
structure Candidates (net : Topology) (queue : Pqueue Vertex) : Prop where
  valid : queue.Valid vertexCmp Vertex.distance
  made : ∀ x ∈ queue.contents, x.Made net
  near : ∀ x ∈ queue.contents, x.Near

theorem Candidates.enqueue {queue : Pqueue Vertex} {c : Vertex} (h : Candidates net queue) (hmade : c.Made net)
    (hnear : c.Near) : Candidates net (pqueueEnqueue vertexCmp c queue) := by
  have hmem : ∀ x ∈ c ::ₘ queue.contents, x.Made net ∧ x.Near := by
    intro x hx
    obtain rfl | hx := Multiset.mem_cons.mp hx
    · exact ⟨hmade, hnear⟩
    · exact ⟨h.made x hx, h.near x hx⟩
  refine ⟨h.valid.enqueue fun x hx y hy => goesBy_vertexCmp (hmem x hx).2 (hmem y hy).2, ?_, ?_⟩
  · rw [contents_enqueue]
    exact fun x hx => (hmem x hx).1
  · rw [contents_enqueue]
    exact fun x hx => (hmem x hx).2

/-- The loop over the link descriptions of a vertex makes the vertices next to it candidates. -/
theorem visitLinks_eq (hs : net.Sound) (hcost : v.cost.toNat < 2 ^ 30) (hhops : v.hops.toNat < 255)
    (l : List Lsdesc) {queue : Pqueue Vertex} (h : Candidates net queue) :
    ∃ queue', l.foldlM (visitLink net v) queue = .ok queue' ∧ Candidates net queue' ∧
      queue'.size = queue.size + (l.filterMap (link net v)).length ∧
      queue'.contents.map Vertex.view = queue.contents.map Vertex.view +
        ((l.filterMap (link net v)).map fun x => (x.1.header.key, advance x.2.1 x.2.2 v.distance) :
          List (LsaKey × Distance)) := by
  induction l generalizing queue with
  | nil => exact ⟨queue, rfl, h, by simp, by simp⟩
  | cons d l ih =>
      rw [List.foldlM_cons]
      obtain ⟨hlink, hvisit⟩ | ⟨x, c, hlink, hvisit, hmade, hnear, hview⟩ := visitLink_eq hs hcost hhops queue d
      · obtain ⟨queue', hfold, h', hsize, hmap⟩ := ih h
        refine ⟨queue', ?_, h', ?_, ?_⟩
        · simp only [hvisit, bind, Except.bind, hfold]
        · rw [hsize, List.filterMap_cons_none hlink]
        · rw [hmap, List.filterMap_cons_none hlink]
      · obtain ⟨queue', hfold, h', hsize, hmap⟩ := ih (h.enqueue hmade hnear)
        refine ⟨queue', ?_, h', ?_, ?_⟩
        · simp only [hvisit, bind, Except.bind, hfold]
        · rw [hsize, List.filterMap_cons_some hlink, List.length_cons]
          simp only [pqueueEnqueue]
          omega
        · rw [hmap, List.filterMap_cons_some hlink, contents_enqueue, Multiset.map_cons, hview, List.map_cons,
            ← Multiset.cons_coe, Multiset.add_cons, Multiset.cons_add]

end Candidates

/-! ### The table -/

/-- The routes of a table may say other things, as long as their prefixes stay. -/
theorem rep_setRoute {s : Rtable} {cur : Option Addr} {gs : List (List Bool × List Addr)} (h : Rep s cur gs)
    {route : Addr → Route} (hroute : ∀ a, (route a).dest = (s.route a).dest) :
    Rep { s with route } cur gs where
  kept := h.kept
  stored := h.stored
  info := h.info
  nonempty := h.nonempty
  dest x hx a ha := (hroute a).trans (h.dest x hx a ha)
  linked := h.linked
  nodup := h.nodup
  count := h.count
  live := h.live
  inTable := h.inTable
  rnode a ha := (h.rnode a ha).trans (congrArg some (hroute a).symm)
  lock_pos := h.lock_pos
  cur_live := h.cur_live
  lock := h.lock

/-- A table of vertices as the calculations leave it. -/
structure SpfTable.Kept (table : SpfTable) (gs : List (List Bool × List Addr)) : Prop where
  rep : Rep table.routes none gs
  free : ∀ a, table.brk ≤ a → table.routes.live a = false

/-- A table without vertices. -/
def spfTableCreate : SpfTable :=
  ⟨empty, fun _ => default, 0⟩

theorem kept_create : spfTableCreate.Kept [] :=
  ⟨empty_rep, fun _ _ => rfl⟩

section Install

variable {table : SpfTable} {gs : List (List Bool × List Addr)} {v : Vertex}

/-- What a table says when a route of it has been changed. -/
def SpfTable.change (table : SpfTable) (a : Addr) (r : Route) : SpfTable :=
  { table with routes := { table.routes with route := Function.update table.routes.route a r } }

theorem SpfTable.Kept.change (h : table.Kept gs) {a : Addr} {r : Route}
    (hr : r.dest = (table.routes.route a).dest) : (table.change a r).Kept gs := by
  refine ⟨rep_setRoute h.rep fun c => ?_, h.free⟩
  by_cases hc : c = a
  · subst hc
    rw [Function.update_self, hr]
  · rw [Function.update_of_ne hc]

theorem SpfTable.Kept.lookup (h : table.Kept gs) (p : List Bool) :
    SpfTable.Kept { table with routes := (routeLookup table.routes p).1 } gs := by
  obtain ⟨hrep, -, -, -, hlive⟩ := h.rep.lookup p
  refine ⟨hrep, fun a ha => ?_⟩
  rw [hlive]
  exact h.free a ha

/-- The table in which a vertex is put where its prefix has no route. -/
theorem SpfTable.Kept.install (h : table.Kept gs) (hp : groupAt gs v.vertexId = []) (hostnum : UInt32) :
    ∃ table' gs', spfInstall v table hostnum = .ok (table', true) ∧ table'.Kept gs' ∧
      table'.routes.route = Function.update table.routes.route table.brk (vertexRoute v hostnum) ∧
      table'.option = Function.update table.option table.brk v ∧
      ∀ p, groupAt gs' p = if p = v.vertexId then [table.brk] else groupAt gs p := by
  have hk := h.lookup v.vertexId
  obtain ⟨-, hhead, hroute, -, -⟩ := h.rep.lookup v.vertexId
  rw [hp] at hhead
  obtain ⟨hrep, hfresh⟩ := hk.rep.create (hk.free _ le_rfl) (vertexRoute v hostnum) noFlags
  obtain ⟨-, hadd⟩ := hrep.add hfresh
  have hself : (routeCreate (routeLookup table.routes v.vertexId).1 table.brk (vertexRoute v hostnum) noFlags).route
      table.brk = vertexRoute v hostnum := Function.update_self _ _ _
  rw [hself] at hadd
  have hgroup : groupAt gs (vertexRoute v hostnum).dest = [] := hp
  obtain ⟨s', r, gs', hs', hadded⟩ := hadd [] none [] (by rw [hgroup]; rfl)
  obtain ⟨rfl, hnew, -⟩ := hadded.new rfl
  rw [hself] at hnew
  refine ⟨⟨s', Function.update table.option table.brk v, table.brk + 1⟩, gs', ?_, ⟨hadded.rep, fun a ha => ?_⟩, ?_,
    rfl, fun p => ?_⟩
  · simp only [spfInstall]
    rw [hhead]
    simp only [List.head?_nil, hs', bind, Except.bind, pure, Except.pure]
  · have hne : a ≠ table.brk := by
      rintro rfl
      exact absurd ha (by simp)
    by_contra hlive
    have hlive := hadded.live a (by simpa using hlive)
    simp only [routeCreate, Function.update_of_ne hne] at hlive
    rw [hk.free a (Nat.le_of_succ_le ha)] at hlive
    exact absurd hlive (by simp)
  · rw [hadded.route]
    exact congrArg (Function.update · _ _) hroute
  · split_ifs with hpv
    · rw [hpv]
      exact hnew
    · refine hadded.others p ?_
      rw [hself]
      exact hpv

/-- `ospf6_spf_install` keeps a table. -/
theorem SpfTable.Kept.spfInstall (h : table.Kept gs) {hostnum : UInt32} {x : SpfTable × Bool}
    (hx : spfInstall v table hostnum = .ok x) : ∃ gs', x.1.Kept gs' := by
  obtain ⟨-, hhead, hroute, -, -⟩ := h.rep.lookup v.vertexId
  have hk := h.lookup v.vertexId
  cases hg : groupAt gs v.vertexId with
  | nil =>
      obtain ⟨table', gs', hs, hkept, -⟩ := h.install hg hostnum
      rw [hs, Except.ok.injEq] at hx
      exact ⟨gs', hx ▸ hkept⟩
  | cons a g =>
      rw [hg, List.head?_cons] at hhead
      simp only [Spf.spfInstall] at hx
      rw [hhead] at hx
      simp only at hx
      split_ifs at hx with h1 h2 h3
      · rw [Except.ok.injEq] at hx
        exact ⟨gs, hx ▸ hk⟩
      · rw [Except.ok.injEq] at hx
        exact ⟨gs, hx ▸ hk.change rfl⟩

/-- A vertex whose prefix has a route is not installed; the assertions hold where it is no nearer. -/
theorem SpfTable.Kept.merge (h : table.Kept gs) (hostnum : UInt32) {a : Addr} {g : List Addr}
    (hg : groupAt gs v.vertexId = a :: g)
    (hle : (toLex ((table.routes.route a).path.cost.toNat, (table.option a).hops.toNat) : Distance) ≤ v.distance) :
    ∃ table', Spf.spfInstall v table hostnum = .ok (table', false) ∧ table'.Kept gs ∧ table'.option = table.option ∧
      ∀ c, (table'.routes.route c).path = (table.routes.route c).path ∧
        (table'.routes.route c).dest = (table.routes.route c).dest := by
  have hk := h.lookup v.vertexId
  obtain ⟨-, hhead, hroute, -, -⟩ := h.rep.lookup v.vertexId
  rw [Vertex.distance, Prod.Lex.le_iff] at hle
  simp only [ofLex_toLex] at hle
  rw [hg, List.head?_cons] at hhead
  have hinstall : Spf.spfInstall v table hostnum =
      if (table.routes.route a).path.cost < v.cost then
        .ok ({ table with routes := (routeLookup table.routes v.vertexId).1 }, false)
      else if (table.routes.route a).path.cost = v.cost then
        if (table.option a).hops ≤ v.hops then
          .ok (SpfTable.change { table with routes := (routeLookup table.routes v.vertexId).1 } a
            { table.routes.route a with
              nexthop := (setNexthops v.nexthop).foldl mergeNexthop (table.routes.route a).nexthop }, false)
        else .error .assertion
      else .error .assertion := by
    simp only [Spf.spfInstall]
    rw [hhead]
    simp only [SpfTable.change, hroute]
  rw [hinstall]
  split_ifs with h1 h2 h3
  · exact ⟨_, rfl, hk, rfl, fun c => by simp only [hroute, and_self]⟩
  · refine ⟨_, rfl, hk.change (by simp only [hroute]), rfl, fun c => ?_⟩
    by_cases hc : c = a
    · subst hc
      simp only [SpfTable.change, hroute, Function.update_self, and_self]
    · simp only [SpfTable.change, hroute, Function.update_of_ne hc, and_self]
  · rw [UInt8.le_iff_toNat_le] at h3
    rw [← UInt32.toNat_inj] at h2
    omega
  · rw [UInt32.lt_iff_toNat_lt] at h1
    rw [← UInt32.toNat_inj] at h2
    omega

end Install

section Left

variable {net : Topology} {routerId hostnum : UInt32} {table table' : SpfTable} {gs : List (List Bool × List Addr)}

/-- `ospf6_spf_table_finish` empties a table. -/
theorem SpfTable.Kept.finish (h : table.Kept gs) : ∃ table', spfTableFinish table = .ok table' ∧ table'.Kept [] := by
  obtain ⟨s', gs', hs', hrep, hchain, -, hlive⟩ := h.rep.sweep fun _ => true
  have hgs' : gs' = [] := by
    rw [List.filter_eq_nil_iff.mpr (by simp)] at hchain
    refine List.eq_nil_iff_forall_not_mem.mpr fun g hg => hrep.nonempty g hg ?_
    refine List.eq_nil_iff_forall_not_mem.mpr fun a ha => ?_
    have hmem := mem_chain.mpr ⟨g, hg, ha⟩
    rw [hchain] at hmem
    exact absurd hmem List.not_mem_nil
  subst hgs'
  refine ⟨{ table with routes := s' }, ?_, hrep, fun a ha => ?_⟩
  · simp only [spfTableFinish, routeRemoveAll, hs', bind, Except.bind, pure, Except.pure]
  · by_contra hne
    have hlive := hlive a (by simpa using hne)
    rw [h.free a ha] at hlive
    exact absurd hlive (by simp)

theorem SpfTable.Kept.loop (h : table.Kept gs) {n : Nat} {queue : Pqueue Vertex}
    (hx : spfLoop net hostnum n table queue = .ok table') : ∃ gs', table'.Kept gs' := by
  induction n generalizing table gs queue with
  | zero =>
      rw [spfLoop] at hx
      split_ifs at hx
      rw [Except.ok.injEq] at hx
      exact ⟨gs, hx ▸ h⟩
  | succ n ih =>
      rw [spfLoop] at hx
      split_ifs at hx with hsize
      · rw [Except.ok.injEq] at hx
        exact ⟨gs, hx ▸ h⟩
      · cases hinstall : Spf.spfInstall (pqueueDequeue vertexCmp queue).1 table hostnum with
        | error e => simp [hinstall, bind, Except.bind] at hx
        | ok x =>
            obtain ⟨gs', h'⟩ := h.spfInstall hinstall
            obtain ⟨t, new⟩ := x
            simp only [hinstall, bind, Except.bind] at hx
            cases new with
            | false => exact ih h' hx
            | true =>
                simp only [if_true] at hx
                split at hx
                · exact absurd hx (by simp)
                · exact ih h' hx

/-- The tables that calculations leave, each of which begins with the table that the last one has left; in between
vertices are looked up. -/
inductive Left : SpfTable → Prop where
  | create : Left spfTableCreate
  | calculation {n : Nat} {net : Topology} {routerId hostnum : UInt32} {table table' : SpfTable} (h : Left table)
      (hx : spfCalculation n net routerId table hostnum = .ok table') : Left table'
  | lookup {table : SpfTable} (h : Left table) (p : List Bool) :
      Left { table with routes := (routeLookup table.routes p).1 }

theorem Left.kept (h : Left table) : ∃ gs, table.Kept gs := by
  induction h with
  | create => exact ⟨_, kept_create⟩
  | lookup h p ih =>
      obtain ⟨gs, hgs⟩ := ih
      exact ⟨gs, hgs.lookup p⟩
  | calculation h hx ih =>
      obtain ⟨gs, hgs⟩ := ih
      obtain ⟨t, ht, hkept⟩ := hgs.finish
      simp only [spfCalculation, ht, bind, Except.bind] at hx
      split at hx
      · rw [pure, Applicative.toPure, Monad.toApplicative] at hx
        exact ⟨_, Except.ok.inj hx ▸ hkept⟩
      · split at hx
        · exact absurd hx (by simp)
        · exact hkept.loop hx

end Left

section Search

variable {net : Topology} {routerId hostnum : UInt32} {table : SpfTable} {gs : List (List Bool × List Addr)}
  {settled : LsaKey → Option Distance} {v : Vertex}

/-- The origin of the route of a vertex. -/
def LsaKey.origin (k : LsaKey) : LsOrigin :=
  ⟨k.type, k.id, k.advRouter⟩

theorem LsaKey.origin_inj {k k' : LsaKey} (h : LsaKey.origin k = LsaKey.origin k') : k = k' := by
  obtain ⟨ht, hi, ha⟩ := LsOrigin.mk.inj h
  cases k
  cases k'
  simp only [LsaKey.mk.injEq]
  exact ⟨ht, hi, ha⟩

/-- The routes in the table are the vertices that are settled. -/
structure Installed (net : Topology) (settled : LsaKey → Option Distance) (table : SpfTable)
    (gs : List (List Bool × List Addr)) : Prop where
  kept : table.Kept gs
  entry : ∀ a ∈ chain gs, ∃ lsa : SpfLsa, lookup net.lsdb lsa.header.key = some lsa ∧ lsa.Proper ∧
    (table.routes.route a).path.origin = LsaKey.origin lsa.header.key ∧
    (table.routes.route a).dest = linkstatePrefix lsa.header.advRouter lsa.header.id ∧
    settled lsa.header.key = some (toLex ((table.routes.route a).path.cost.toNat, (table.option a).hops.toNat))
  filled : ∀ k, settled k ≠ none → ∃ a ∈ chain gs, (table.routes.route a).path.origin = LsaKey.origin k
  single : ∀ p, (groupAt gs p).length ≤ 1

/-- What a route with the prefix of a vertex says. -/
theorem Installed.entry_at (h : Installed net settled table gs) (hv : v.Made net) {a : Addr}
    (ha : a ∈ groupAt gs v.vertexId) : (table.routes.route a).path.origin = LsaKey.origin v.lsa.header.key ∧
      settled v.lsa.header.key =
        some (toLex ((table.routes.route a).path.cost.toNat, (table.option a).hops.toNat)) := by
  rw [h.kept.rep.groupAt_eq, List.mem_filter, beq_iff_eq] at ha
  obtain ⟨lsa, -, hproper, horigin, hdest, hsettled⟩ := h.entry a ha.1
  have hkey : v.lsa.header.key = lsa.header.key := by
    refine key_of_vertexId hv.proper hproper ?_
    rw [← hv.vertexId, ← hdest, ha.2]
  rw [hkey]
  exact ⟨horigin, hsettled⟩

theorem Installed.groupAt_eq_nil_iff (h : Installed net settled table gs) (hv : v.Made net) :
    groupAt gs v.vertexId = [] ↔ settled v.lsa.header.key = none := by
  constructor
  · intro hg
    by_contra hsettled
    obtain ⟨a, ha, horigin⟩ := h.filled _ hsettled
    obtain ⟨lsa, -, hproper, horigin', hdest, -⟩ := h.entry a ha
    have hkey := LsaKey.origin_inj (horigin.symm.trans horigin')
    simp only [LsaHeader.key, LsaKey.mk.injEq] at hkey
    have hmem : a ∈ groupAt gs v.vertexId := by
      rw [h.kept.rep.groupAt_eq, List.mem_filter, beq_iff_eq, hdest, hv.vertexId, hkey.2.1, hkey.2.2]
      exact ⟨ha, rfl⟩
    rw [hg] at hmem
    exact absurd hmem List.not_mem_nil
  · intro hsettled
    refine List.eq_nil_iff_forall_not_mem.mpr fun a ha => ?_
    rw [(h.entry_at hv ha).2] at hsettled
    exact absurd hsettled (by simp)

/-- A vertex that is in the table is not installed again; the assertions hold, as it is no nearer. -/
theorem Installed.merge (hostnum : UInt32) (h : Installed net settled table gs) (hv : v.Made net) {x : Distance}
    (hx : settled v.lsa.header.key = some x) (hle : x ≤ v.distance) :
    ∃ table', spfInstall v table hostnum = .ok (table', false) ∧ Installed net settled table' gs := by
  cases hg : groupAt gs v.vertexId with
  | nil =>
      rw [(h.groupAt_eq_nil_iff hv).mp hg] at hx
      exact absurd hx (by simp)
  | cons a g =>
      obtain ⟨-, hsettled⟩ := h.entry_at hv (hg ▸ List.mem_cons_self)
      rw [hsettled, Option.some.injEq] at hx
      obtain ⟨table', hinstall, hkept, hoption, hsame⟩ := h.kept.merge hostnum hg (hx ▸ hle)
      refine ⟨table', hinstall, hkept, ?_, ?_, h.single⟩ <;> simp only [hoption, hsame]
      · exact h.entry
      · exact h.filled

/-- A vertex that is not in the table is installed. -/
theorem Installed.install (hostnum : UInt32) (h : Installed net settled table gs) (hv : v.Made net)
    (hnone : settled v.lsa.header.key = none) :
    ∃ table' gs', spfInstall v table hostnum = .ok (table', true) ∧
      Installed net (Function.update settled v.lsa.header.key (some v.distance)) table' gs' := by
  have hg := (h.groupAt_eq_nil_iff hv).mpr hnone
  obtain ⟨table', gs', hinstall, hkept, hroute, hoption, hgroup⟩ := h.kept.install hg hostnum
  have hmem : ∀ a, a ∈ chain gs' → a = table.brk ∨ a ≠ table.brk ∧ a ∈ chain gs := by
    intro a ha
    have hself : a ∈ groupAt gs' (table'.routes.route a).dest := by
      rw [hkept.rep.groupAt_eq, List.mem_filter, beq_iff_eq]
      exact ⟨ha, rfl⟩
    rw [hgroup] at hself
    split_ifs at hself with hdest
    · exact .inl (List.mem_singleton.mp hself)
    · have hold : a ∈ chain gs := by
        rw [h.kept.rep.groupAt_eq] at hself
        exact List.mem_of_mem_filter hself
      refine .inr ⟨?_, hold⟩
      rintro rfl
      have hlive := h.kept.rep.live _ hold
      rw [h.kept.free _ le_rfl] at hlive
      exact absurd hlive (by simp)
  have hmem' : ∀ a, a = table.brk ∨ a ∈ chain gs → a ∈ chain gs' := by
    intro a ha
    suffices hself : ∃ p, a ∈ groupAt gs' p by
      obtain ⟨p, hp⟩ := hself
      rw [hkept.rep.groupAt_eq] at hp
      exact List.mem_of_mem_filter hp
    obtain rfl | ha := ha
    · refine ⟨v.vertexId, ?_⟩
      rw [hgroup, if_pos rfl]
      exact List.mem_singleton_self _
    · have hself : a ∈ groupAt gs (table.routes.route a).dest := by
        rw [h.kept.rep.groupAt_eq, List.mem_filter, beq_iff_eq]
        exact ⟨ha, rfl⟩
      refine ⟨(table.routes.route a).dest, ?_⟩
      rw [hgroup, if_neg ?_]
      · exact hself
      · intro hdest
        rw [hdest, hg] at hself
        exact absurd hself List.not_mem_nil
  refine ⟨table', gs', hinstall, hkept, fun a ha => ?_, fun k hk => ?_, fun p => ?_⟩
  · rw [hroute, hoption]
    obtain rfl | ⟨hne, ha⟩ := hmem a ha
    · refine ⟨v.lsa, hv.found, hv.proper, ?_, ?_, ?_⟩ <;> simp only [Function.update_self]
      · rfl
      · exact hv.vertexId
      · rfl
    · obtain ⟨lsa, hfound, hproper, horigin, hdest, hsettled⟩ := h.entry a ha
      rw [Function.update_of_ne hne, Function.update_of_ne hne]
      refine ⟨lsa, hfound, hproper, horigin, hdest, ?_⟩
      rw [Function.update_of_ne, hsettled]
      intro heq
      rw [heq, hnone] at hsettled
      exact absurd hsettled (by simp)
  · by_cases hkv : k = v.lsa.header.key
    · subst hkv
      refine ⟨table.brk, hmem' _ (.inl rfl), ?_⟩
      rw [hroute, Function.update_self]
      rfl
    · rw [Function.update_of_ne hkv] at hk
      obtain ⟨a, ha, horigin⟩ := h.filled k hk
      refine ⟨a, hmem' a (.inr ha), ?_⟩
      rw [hroute, Function.update_of_ne ?_]
      · exact horigin
      · rintro rfl
        have hlive := h.kept.rep.live _ ha
        rw [h.kept.free _ le_rfl] at hlive
        exact absurd hlive (by simp)
  · rw [hgroup]
    split_ifs
    · exact le_rfl
    · exact h.single p

end Search

end Harry.Spf
