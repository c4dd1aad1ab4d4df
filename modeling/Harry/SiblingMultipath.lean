import Harry.SiblingNexthops
import Harry.SiblingPrefixes
import Harry.SiblingSpfRun

/-! Next hops over a calculation: what the loops over their arrays do for the vertices and routes that
`ospf6_spf_calculation` and then `ospf6_intra_prefix_lsa_add` build. The arrays have no gaps and no duplicates as long
as the Link-LSAs of a neighbor show different addresses; a loop reads behind an array where it is full. -/

namespace Harry.Spf

open Harry.Rfp Harry.Base Harry.Table Harry.Sibling Harry.Routes Harry.Queue

/-- The route of a vertex that `ospf6_spf_install` and `ospf6_intra_prefix_lsa_add` find. -/
def entry (table : SpfTable) (p : List Bool) : Option Route :=
  (routeLookup table.routes p).2.map table.routes.route

/-- The loops of `ospf6_spf_install`: the next hops of the vertex are merged into those of a route with the same cost,
or copied to a new route. -/
def installLoops (behind : Hops) (v : Vertex) : Option Route → Exec HopAccess Hops
  | none => copyLoop (cells v.nexthop behind) (multiPathLimit + 1) 0 (cells [] behind)
  | some r =>
    if r.path.cost = v.cost then mergeLoop (cells v.nexthop behind) (multiPathLimit + 1) 0 (cells r.nexthop behind)
    else pure (cells r.nexthop behind)

/-- The interface that `ospf6_nexthop_calc` takes. -/
def firstHopIndex (v : Vertex) (lsdesc : Lsdesc) : UInt32 :=
  if v.type = .network then (v.nexthop.head?.map Nexthop.ifindex).getD 0 else lsdesc.ifid

/-- The Link-LSAs that `ospf6_nexthop_calc` comes to. -/
def firstHopLsas (net : Topology) (v : Vertex) (lsdesc : Lsdesc) : List SpfLsa :=
  ((net.interface (firstHopIndex v lsdesc)).getD []).filter fun lsa =>
    lsa.header.type = lstypeLink ∧
      lsa.header.advRouter = (if v.type = .network then lsdesc.routerId else lsdesc.nbrRouterId) ∧
      ¬ (v.type = .router ∧ lsdesc.nbrIfid ≠ lsa.header.id)

/-- What is done to the next hops of a candidate `w` with so many router hops. -/
def candidateLoops (behind : Hops) (net : Topology) (v : Vertex) (lsdesc : Lsdesc) (hops : UInt8) :
    Exec HopAccess Hops :=
  if hops = 0 then do
    Exec.emit (.write 0)
    pure (cells [⟨lsdesc.ifid, List.replicate 16 0⟩] behind)
  else if hops = 1 ∧ v.hops = 0 then do
    Exec.when (v.type = .network) (Exec.emit (.read 0))
    linkLoop (firstHopIndex v lsdesc) (firstHopLsas net v lsdesc) 0 (cells [] behind)
  else copyLoop (cells v.nexthop behind) (multiPathLimit + 1) 0 (cells [] behind)

/-- A loop over next hops in one turn of `ospf6_spf_calculation`, in which the vertex `v` is taken from the queue. -/
inductive TurnLoop (net : Topology) (table : SpfTable) (v : Vertex) : Exec HopAccess Hops → Prop
  | install (behind : Hops) : TurnLoop net table v (installLoops behind v (entry table v.vertexId))
  | candidate (behind : Hops) {lsdesc : Lsdesc} {lsa : SpfLsa} {w : Vertex} (hnew : entry table v.vertexId = none)
      (hmem : lsdesc ∈ lsdescs v.type v.lsa) (hlsa : lsdescLsa net lsdesc v = some lsa)
      (hback : lsdescBacklink lsa lsdesc v = .ok true) (hw : candidate net v lsdesc lsa = .ok w) :
      TurnLoop net table v (candidateLoops behind net v lsdesc w.hops)

/-- The entry of the vertex that an Intra-Area-Prefix-LSA refers to. -/
def lsEntry (table : SpfTable) (lsa : SpfLsa) : Option Route :=
  if Prefixes.half lsa 2 = lstypeRouter ∨ Prefixes.half lsa 2 = lstypeNetwork then
    entry table (linkstatePrefix (lsa.word 8) (if Prefixes.half lsa 2 = lstypeRouter then 0 else lsa.word 4))
  else none

/-- A loop over next hops in `ospf6_intra_prefix_lsa_add`, for one of the prefixes. -/
inductive IntraLoop (table : SpfTable) (lsa : SpfLsa) : Exec HopAccess Hops → Prop
  | record (behind : Hops) {r : Route} {ds : List Prefixes.Decoded} {d : Prefixes.Decoded}
      (hentry : lsEntry table lsa = some r) (hds : (Prefixes.intraPrefixes lsa).result = some ds) (hd : d ∈ ds) :
      IntraLoop table lsa (copyLoop (cells r.nexthop behind) (multiPathLimit + 1) 0 (cells [] behind))

/-- A loop stays inside the arrays, and what it leaves has no gaps and no duplicates. -/
def Safe (x : Exec HopAccess Hops) : Prop :=
  InBounds x ∧ ∃ a, x.result = some a ∧ Compact a

/-- One turn of the loop of `ospf6_spf_calculation`. -/
def spfTurn (net : Topology) (hostnum : UInt32) (table : SpfTable) (queue : Pqueue Vertex) :
    Except Abort (SpfTable × Pqueue Vertex) := do
  let (v, queue) := pqueueDequeue vertexCmp queue
  let (table, new) ← spfInstall v table hostnum
  if new then do
    let queue ← (lsdescs v.type v.lsa).foldlM (visitLink net v) queue
    pure (table, queue)
  else pure (table, queue)

/-- The tables and queues that a calculation comes to, when it begins with a table that has been emptied. -/
inductive Underway (net : Topology) (routerId hostnum : UInt32) (start : SpfTable) : SpfTable → Pqueue Vertex → Prop
  | root {table : SpfTable} {lsa : SpfLsa} {root : Vertex} (hempty : spfTableFinish start = .ok table)
      (hlsa : lookup net.lsdb ⟨lstypeRouter, 0, routerId⟩ = some lsa) (hroot : vertexCreate lsa = .ok root) :
      Underway net routerId hostnum start table
        (pqueueEnqueue vertexCmp { root with nexthop := [⟨0, loopback⟩] } pqueueCreate)
  | turn {table : SpfTable} {queue : Pqueue Vertex} {x : SpfTable × Pqueue Vertex}
      (h : Underway net routerId hostnum start table queue) (hsize : queue.size ≠ 0)
      (hx : spfTurn net hostnum table queue = .ok x) : Underway net routerId hostnum start x.1 x.2

/-- In a calculation and in the use of its table for the Intra-Area-Prefix-LSAs, as far as these are not too old, every
loop over next hops is safe. -/
structure RunSafe (net : Topology) (lsas : List SpfLsa) (routerId hostnum : UInt32) (start : SpfTable) : Prop where
  spf : ∀ table queue, Underway net routerId hostnum start table queue → queue.size ≠ 0 →
    ∀ x, TurnLoop net table (pqueueDequeue vertexCmp queue).1 x → Safe x
  intra : ∀ n table, spfCalculation n net routerId start hostnum = .ok table →
    ∀ lsa ∈ lsas, ∀ x, IntraLoop table lsa x → Safe x

/-- A vertex that is about to be installed or merged has fewer next hops than there is room for, and if it is on the link
of the root, the Link-LSAs of each router that is found over it show different addresses. -/
structure TurnFits (net : Topology) (table : SpfTable) (v : Vertex) : Prop where
  room : (∀ r ∈ entry table v.vertexId, r.path.cost = v.cost) → (setNexthops v.nexthop).length < multiPathLimit
  apart : entry table v.vertexId = none → v.hops = 0 → ∀ lsdesc ∈ lsdescs v.type v.lsa, ∀ lsa,
    lsdescLsa net lsdesc v = some lsa → lsdescBacklink lsa lsdesc v = .ok true → lsa.header.type = lstypeRouter →
    Apart (firstHopIndex v lsdesc) (firstHopLsas net v lsdesc)

/-- The walk over the prefixes of an Intra-Area-Prefix-LSA comes to one. -/
def HasPrefix (lsa : SpfLsa) : Prop :=
  Prefixes.half lsa 0 ≠ 0 ∧ 12 + Prefixes.prefixSize (lsa.bytes 12).toNat ≤ lsa.size

/-- Every turn of a calculation fits, and an entry of its table that an Intra-Area-Prefix-LSA takes for a prefix has
fewer next hops than there is room for. -/
structure RunFits (net : Topology) (lsas : List SpfLsa) (routerId hostnum : UInt32) (start : SpfTable) : Prop where
  spf : ∀ table queue, Underway net routerId hostnum start table queue → queue.size ≠ 0 →
    TurnFits net table (pqueueDequeue vertexCmp queue).1
  intra : ∀ n table, spfCalculation n net routerId start hostnum = .ok table →
    ∀ lsa ∈ lsas, HasPrefix lsa → ∀ r ∈ lsEntry table lsa, (setNexthops r.nexthop).length < multiPathLimit

section Turn

variable {net : Topology} {routerId hostnum : UInt32} {start table : SpfTable} {queue : Pqueue Vertex} {v w : Vertex}
  {lsdesc : Lsdesc} {lsa : SpfLsa} {behind : Hops} {n : Nat} {gs : List (List Bool × List Addr)}

theorem spfLoop_succ (n : Nat) (table : SpfTable) (queue : Pqueue Vertex) :
    spfLoop net hostnum (n + 1) table queue =
      if queue.size = 0 then .ok table
      else spfTurn net hostnum table queue >>= fun x => spfLoop net hostnum n x.1 x.2 := by
  rw [spfLoop]
  refine if_congr Iff.rfl rfl ?_
  cases hinstall : spfInstall (pqueueDequeue vertexCmp queue).1 table hostnum with
  | error e => simp only [spfTurn, hinstall, bind, Except.bind]
  | ok x =>
      obtain ⟨t, new⟩ := x
      simp only [spfTurn, hinstall, bind, Except.bind]
      cases new with
      | false => rfl
      | true =>
          simp only [if_true]
          cases (lsdescs (pqueueDequeue vertexCmp queue).1.type (pqueueDequeue vertexCmp queue).1.lsa).foldlM
            (visitLink net (pqueueDequeue vertexCmp queue).1) (pqueueDequeue vertexCmp queue).2 <;> rfl

/-- A calculation that comes to an end has reached its table. -/
theorem Underway.loop (h : Underway net routerId hostnum start table queue) {table' : SpfTable}
    (hx : spfLoop net hostnum n table queue = .ok table') :
    ∃ queue', Underway net routerId hostnum start table' queue' := by
  induction n generalizing table queue with
  | zero =>
      rw [spfLoop] at hx
      split_ifs at hx
      exact ⟨queue, Except.ok.inj hx ▸ h⟩
  | succ n ih =>
      rw [spfLoop_succ] at hx
      split_ifs at hx with hsize
      · exact ⟨queue, Except.ok.inj hx ▸ h⟩
      · cases hturn : spfTurn net hostnum table queue with
        | error e => simp [hturn, bind, Except.bind] at hx
        | ok x =>
            simp only [hturn, bind, Except.bind] at hx
            exact ih (h.turn hsize hturn) hx

theorem SpfTable.Kept.entry_eq (h : table.Kept gs) (p : List Bool) :
    entry table p = (groupAt gs p).head?.map table.routes.route := by
  rw [entry, (h.rep.lookup p).2.1]

/-- The next hops of all routes of a table and of all candidates are as the loops leave them. -/
structure Tidy (table : SpfTable) (queue : Pqueue Vertex) : Prop where
  kept : ∃ gs, table.Kept gs
  routes : ∀ p, ∀ r ∈ entry table p, Routed r.nexthop
  queue : ∀ v ∈ queue.contents, Routed (setNexthops v.nexthop)

/-- What `ospf6_spf_install` does to the routes. -/
theorem install_routes (hk : table.Kept gs) (hroutes : ∀ p, ∀ r ∈ entry table p, Routed r.nexthop)
    (hv : Routed (setNexthops v.nexthop)) {x : SpfTable × Bool} (hx : spfInstall v table hostnum = .ok x) :
    (∃ gs', x.1.Kept gs') ∧ (∀ p, ∀ r ∈ entry x.1 p, Routed r.nexthop) ∧
      (x.2 = true ↔ entry table v.vertexId = none) := by
  obtain ⟨-, hhead, hroute, -, -⟩ := hk.rep.lookup v.vertexId
  have hkl := hk.lookup v.vertexId
  have hentry := hk.entry_eq v.vertexId
  cases hg : groupAt gs v.vertexId with
  | nil =>
      obtain ⟨table', gs', hs, hk', hroute', -, hgroups⟩ := hk.install hg hostnum
      obtain rfl : (table', true) = x := Except.ok.inj (hs.symm.trans hx)
      refine ⟨⟨gs', hk'⟩, fun p r hr => ?_, iff_of_true rfl (by rw [hentry, hg]; rfl)⟩
      rw [hk'.entry_eq, hgroups p] at hr
      have hcell : ∀ a, (∀ r ∈ some (table.routes.route a), a ≠ table.brk → Routed r.nexthop) →
          Routed (table'.routes.route a).nexthop := by
        intro a ha
        rw [hroute']
        by_cases hab : a = table.brk
        · rw [hab, Function.update_self]
          exact hv
        · rw [Function.update_of_ne hab]
          exact ha _ rfl hab
      split_ifs at hr with hp
      · obtain rfl : table'.routes.route table.brk = r := by simpa using hr
        exact hcell _ fun _ _ hne => absurd rfl hne
      · obtain ⟨a, ha, rfl⟩ := Option.map_eq_some_iff.mp hr
        refine hcell a fun r hr _ => hroutes p r ?_
        rw [hk.entry_eq, ha]
        exact hr
  | cons a g =>
      rw [hg, List.head?_cons] at hhead hentry
      have hlook : ∀ p, entry { table with routes := (routeLookup table.routes v.vertexId).1 } p = entry table p := by
        intro p
        rw [hkl.entry_eq, hk.entry_eq]
        simp only [hroute]
      simp only [spfInstall] at hx
      rw [hhead] at hx
      simp only at hx
      split_ifs at hx with h1 h2 h3
      · obtain rfl := Except.ok.inj hx
        exact ⟨⟨gs, hkl⟩, fun p r hr => hroutes p r (hlook p ▸ hr), by simp [hentry]⟩
      · obtain rfl := Except.ok.inj hx
        have hkc := hkl.change (a := a) (r := { (routeLookup table.routes v.vertexId).1.route a with
          nexthop := (setNexthops v.nexthop).foldl mergeNexthop
            ((routeLookup table.routes v.vertexId).1.route a).nexthop }) rfl
        refine ⟨⟨gs, hkc⟩, fun p r hr => ?_, by simp [hentry]⟩
        obtain ⟨c, hc, rfl⟩ := Option.map_eq_some_iff.mp ((hkc.entry_eq p).symm.trans hr)
        have hold : ∀ c, (groupAt gs p).head? = some c → Routed (table.routes.route c).nexthop := by
          intro c hc
          refine hroutes p _ ?_
          rw [hk.entry_eq, hc]
          rfl
        by_cases hca : c = a
        · subst hca
          have hmerged := (hold c hc).mergeAll fun x => isSet_of_mem_setNexthops (l := v.nexthop)
          simpa only [SpfTable.change, Function.update_self, hroute] using hmerged
        · simpa only [SpfTable.change, Function.update_of_ne hca, hroute] using hold c hc

theorem vertexCreate_ok {c : Vertex} (h : vertexCreate lsa = .ok c) :
    c.nexthop = [] ∧ (c.type = .router ↔ lsa.header.type = lstypeRouter) := by
  rw [vertexCreate] at h
  split_ifs at h with hrouter hnetwork
  · obtain rfl := Except.ok.inj h
    exact ⟨rfl, iff_of_true rfl hrouter⟩
  · obtain rfl := Except.ok.inj h
    exact ⟨rfl, iff_of_false (by simp [newVertex]) hrouter⟩

/-- The next hops of a vertex on the link of the root. -/
theorem nexthopCalc_ok {c : Vertex} (hc : c.nexthop = []) (h : nexthopCalc net c v lsdesc = .ok w) :
    w.hops = c.hops ∧ c.type = .router ∧
      w.nexthop = ((firstHopLsas net v lsdesc).take multiPathLimit).map fun lsa =>
        ⟨firstHopIndex v lsdesc, linklocalAddr lsa⟩ := by
  by_cases htype : c.type = .router
  · rw [nexthopCalc, if_neg (not_not.mpr htype)] at h
    rw [firstHopLsas]
    cases hoi : net.interface (firstHopIndex v lsdesc) with
    | none =>
        simp only [firstHopIndex] at hoi
        simp only [hoi] at h
        obtain rfl := Except.ok.inj h
        exact ⟨rfl, htype, by simp [hc]⟩
    | some lsdb =>
        simp only [firstHopIndex] at hoi
        simp only [hoi] at h
        obtain rfl := Except.ok.inj h
        exact ⟨rfl, htype, rfl⟩
  · rw [nexthopCalc, if_pos htype] at h
    cases h

/-- The router hops and the next hops of a candidate. -/
theorem candidate_ok (h : candidate net v lsdesc lsa = .ok w) :
    w.nexthop = (if w.hops = 0 then [⟨lsdesc.ifid, List.replicate 16 0⟩]
      else if w.hops = 1 ∧ v.hops = 0 then ((firstHopLsas net v lsdesc).take multiPathLimit).map fun lsa =>
        ⟨firstHopIndex v lsdesc, linklocalAddr lsa⟩
      else setNexthops v.nexthop) ∧
    (w.hops = 1 → v.hops = 0 → lsa.header.type = lstypeRouter) ∧
    (lsa.header.type = lstypeRouter → v.hops = 0 → w.hops = 1) := by
  cases hcreate : vertexCreate lsa with
  | error e => simp [candidate, hcreate, bind, Except.bind] at h
  | ok c₀ =>
      obtain ⟨hnil, htype⟩ := vertexCreate_ok hcreate
      obtain ⟨c, hcnil, hctype, hchops, hcand⟩ : ∃ c : Vertex, c.nexthop = [] ∧ c.type = c₀.type ∧
          c.hops = (if v.type = .router then v.hops + (if c₀.type = .network then 0 else 1) else v.hops + 1) ∧
          candidate net v lsdesc lsa =
            if c.hops = 0 then pure { c with nexthop := [⟨lsdesc.ifid, List.replicate 16 0⟩] }
            else if c.hops = 1 ∧ v.hops = 0 then nexthopCalc net c v lsdesc
            else pure { c with nexthop := setNexthops v.nexthop } := by
        by_cases hv : v.type = .router
        · refine ⟨{ c₀ with cost := v.cost + lsdesc.metric, hops := v.hops + if c₀.type = .network then 0 else 1 },
            hnil, rfl, by simp [hv], ?_⟩
          simp only [candidate, hcreate, bind, Except.bind, hv, if_true]
        · refine ⟨{ c₀ with cost := v.cost, hops := v.hops + 1 }, hnil, rfl, by simp [hv], ?_⟩
          simp only [candidate, hcreate, bind, Except.bind, hv, if_false]
      have hone : lsa.header.type = lstypeRouter → v.hops = 0 → c.hops = 1 := by
        intro hrouter hzero
        rw [hchops, htype.mpr hrouter, hzero]
        split <;> rfl
      rw [hcand] at h
      split_ifs at h with h0 h1
      · obtain rfl := Except.ok.inj h
        refine ⟨by simp [h0], fun h1 => ?_, hone⟩
        rw [h0] at h1
        exact absurd h1 (by decide)
      · obtain ⟨hhops, hrouter, hnexthop⟩ := nexthopCalc_ok hcnil h
        refine ⟨?_, fun _ _ => htype.mp (hctype ▸ hrouter), fun hr hz => hhops.trans (hone hr hz)⟩
        rw [if_neg (by rw [hhops]; exact h0), if_pos (by rw [hhops]; exact h1), hnexthop]
      · obtain rfl := Except.ok.inj h
        exact ⟨by simp [h0, h1], fun h2 hz => absurd ⟨h2, hz⟩ h1, hone⟩

theorem candidate_exists (net : Topology) (v : Vertex) (lsdesc : Lsdesc) (hrouter : lsa.header.type = lstypeRouter) :
    ∃ w, candidate net v lsdesc lsa = .ok w := by
  have hcreate : vertexCreate lsa = .ok (newVertex (vertexType lsa) lsa) := by
    rw [vertexCreate, if_pos hrouter, vertexType_router hrouter]
  by_cases hv : v.type = .network
  · obtain ⟨l, hl⟩ := @candidate_of_create net v lsa lsdesc hcreate fun _ => hrouter
    exact ⟨_, hl⟩
  · obtain ⟨l, hl⟩ := @candidate_of_create net v lsa lsdesc hcreate fun h => absurd h hv
    exact ⟨_, hl⟩

theorem routed_setNexthops_singleton (x : Nexthop) : Routed (setNexthops [x]) := by
  refine ⟨fun y => isSet_of_mem_setNexthops, ?_, length_setNexthops_le _⟩
  exact (List.nodup_singleton x).sublist (setNexthops_isPrefix [x]).sublist

/-- The loop over the Link-LSAs is safe if they are apart. -/
theorem safe_links_iff :
    Safe (do
      Exec.when (v.type = .network) (Exec.emit (.read 0))
      linkLoop (firstHopIndex v lsdesc) (firstHopLsas net v lsdesc) 0 (cells [] behind)) ↔
      Apart (firstHopIndex v lsdesc) (firstHopLsas net v lsdesc) := by
  obtain ⟨hres, hin⟩ := @linkLoop_cells [] behind (firstHopIndex v lsdesc) (firstHopLsas net v lsdesc) (Nat.zero_le _)
  have hlink : Safe (linkLoop (firstHopIndex v lsdesc) (firstHopLsas net v lsdesc) 0 (cells [] behind)) ↔
      Apart (firstHopIndex v lsdesc) (firstHopLsas net v lsdesc) := by
    rw [← @compact_links_iff behind]
    constructor
    · rintro ⟨-, a, ha, hcompact⟩
      obtain rfl := Option.some.inj (hres.symm.trans ha)
      exact hcompact
    · exact fun hcompact => ⟨hin, _, hres, hcompact⟩
  by_cases hv : v.type = .network
  · rw [← hlink, Safe, Safe, Exec.when, if_pos hv, inBounds_emit_bind]
    simp [HopAccess.index, multiPathLimit]
  · rw [← hlink, Exec.when, if_neg hv]
    rfl

/-- The loops of `ospf6_spf_install` are safe unless they come to a full array. -/
theorem safe_install_iff (hroutes : ∀ r ∈ entry table v.vertexId, Routed r.nexthop)
    (hv : Routed (setNexthops v.nexthop)) :
    Safe (installLoops behind v (entry table v.vertexId)) ↔
      ((∀ r ∈ entry table v.vertexId, r.path.cost = v.cost) → (setNexthops v.nexthop).length < multiPathLimit) := by
  cases hentry : entry table v.vertexId with
  | none =>
      obtain ⟨hres, hin⟩ := copyLoop_cells v.nexthop behind behind
      refine ⟨fun h _ => hin.mp h.1, fun h => ⟨hin.mpr (h (by simp)), _, hres, hv.compact⟩⟩
  | some r =>
      have hr := hroutes r hentry
      rw [installLoops]
      by_cases hcost : r.path.cost = v.cost
      · obtain ⟨hres, hin⟩ := mergeLoop_cells v.nexthop behind behind hr
        have hmerged := hr.mergeAll fun x => isSet_of_mem_setNexthops (l := v.nexthop)
        rw [if_pos hcost]
        refine ⟨fun h _ => hin.mp h.1, fun h => ⟨hin.mpr (h (by simpa using hcost)), _, hres, hmerged.compact⟩⟩
      · rw [if_neg hcost]
        exact iff_of_true ⟨inBounds_pure _, _, rfl, hr.compact⟩ fun h => absurd (h r rfl) hcost

/-- The loops of `ospf6_spf_install` leave the next hops that the route of the vertex has afterwards. -/
theorem install_loops (hk : table.Kept gs) (hroutes : ∀ r ∈ entry table v.vertexId, Routed r.nexthop)
    {x : SpfTable × Bool} (hx : spfInstall v table hostnum = .ok x) :
    ∃ r, entry x.1 v.vertexId = some r ∧
      (installLoops behind v (entry table v.vertexId)).result = some (cells r.nexthop behind) := by
  obtain ⟨-, hhead, hroute, -, -⟩ := hk.rep.lookup v.vertexId
  have hkl := hk.lookup v.vertexId
  have hentry := hk.entry_eq v.vertexId
  cases hg : groupAt gs v.vertexId with
  | nil =>
      obtain ⟨table', gs', hs, hk', hroute', -, hgroups⟩ := hk.install hg hostnum
      obtain rfl : (table', true) = x := Except.ok.inj (hs.symm.trans hx)
      have hnew : entry table' v.vertexId = some (vertexRoute v hostnum) := by
        rw [hk'.entry_eq, hgroups, if_pos rfl, hroute', List.head?_cons, Option.map_some, Function.update_self]
      rw [hg] at hentry
      rw [hentry]
      exact ⟨_, hnew, (copyLoop_cells v.nexthop behind behind).1⟩
  | cons a g =>
      rw [hg, List.head?_cons] at hhead hentry
      rw [hentry] at hroutes
      rw [hentry, Option.map_some, installLoops]
      have hr := hroutes _ rfl
      simp only [spfInstall] at hx
      rw [hhead] at hx
      simp only at hx
      split_ifs at hx with h1 h2 h3
      · obtain rfl := Except.ok.inj hx
        rw [hroute] at h1
        refine ⟨table.routes.route a, ?_, by rw [if_neg (UInt32.ne_of_lt h1)]; rfl⟩
        rw [hkl.entry_eq, hg]
        simp only [List.head?_cons, Option.map_some, hroute]
      · obtain rfl := Except.ok.inj hx
        rw [hroute] at h2
        have hkc := hkl.change (a := a) (r := { (routeLookup table.routes v.vertexId).1.route a with
          nexthop := (setNexthops v.nexthop).foldl mergeNexthop
            ((routeLookup table.routes v.vertexId).1.route a).nexthop }) rfl
        refine ⟨_, (hkc.entry_eq _).trans (congrArg (fun l : List Addr => l.head?.map _) hg), ?_⟩
        simp only [SpfTable.change, Function.update_self, hroute]
        rw [if_pos h2]
        exact (mergeLoop_cells v.nexthop behind behind hr).1

/-- The loops for a candidate leave its next hops. -/
theorem candidate_loops (hw : candidate net v lsdesc lsa = .ok w) :
    (candidateLoops behind net v lsdesc w.hops).result = some (cells w.nexthop behind) := by
  rw [(candidate_ok hw).1, candidateLoops]
  split_ifs with h0 h1
  · rfl
  · obtain ⟨hres, -⟩ := @linkLoop_cells [] behind (firstHopIndex v lsdesc) (firstHopLsas net v lsdesc) (Nat.zero_le _)
    simp only [Exec.result_bind]
    rw [Exec.when]
    split_ifs <;> exact hres
  · exact (copyLoop_cells v.nexthop behind behind).1

/-- Every loop of a turn is safe if and only if the turn fits. -/
theorem turn_safe_iff (h : Tidy table queue) (hv : v ∈ queue.contents) :
    (∀ x, TurnLoop net table v x → Safe x) ↔ TurnFits net table v := by
  have hinstall := @safe_install_iff table v (fun _ => clearNexthop) (h.routes v.vertexId) (h.queue v hv)
  constructor
  · intro hsafe
    refine ⟨hinstall.mp (hsafe _ (.install _)), fun hnew hzero lsdesc hmem lsa hlsa hback hrouter => ?_⟩
    obtain ⟨w, hw⟩ := candidate_exists net v lsdesc hrouter
    have hone := (candidate_ok hw).2.2 hrouter hzero
    have hloop := hsafe _ (.candidate (fun _ => clearNexthop) hnew hmem hlsa hback hw)
    rw [candidateLoops, if_neg (by rw [hone]; decide), if_pos ⟨hone, hzero⟩] at hloop
    exact safe_links_iff.mp hloop
  · intro hfits x hx
    cases hx with
    | install behind => exact (safe_install_iff (h.routes v.vertexId) (h.queue v hv)).mpr hfits.room
    | @candidate behind lsdesc lsa w hnew hmem hlsa hback hw =>
        rw [candidateLoops]
        split_ifs with h0 h1
        · refine ⟨inBounds_emit_bind.mpr ⟨by decide, inBounds_pure _⟩, _, rfl, ?_⟩
          intro j hj hset i hij
          rw [cells_of_lt hj, List.getD_eq_default _ _ (by simp; omega)] at hset
          exact absurd hset not_isSet_clear
        · exact safe_links_iff.mpr (hfits.apart hnew h1.2 lsdesc hmem lsa hlsa hback ((candidate_ok hw).2.1 h1.1 h1.2))
        · obtain ⟨hres, hin⟩ := copyLoop_cells v.nexthop behind behind
          have hroom := hfits.room (by rw [hnew]; simp)
          exact ⟨hin.mpr hroom, _, hres, (h.queue v hv).compact⟩

/-! ### Runs -/

/-- What is put into the queue for the links of a vertex. -/
theorem visitLinks_queue {ds : List Lsdesc} {queue' : Pqueue Vertex}
    (hx : ds.foldlM (visitLink net v) queue = .ok queue') (hold : ∀ c ∈ queue.contents, Routed (setNexthops c.nexthop))
    (hnew : ∀ d ∈ ds, ∀ lsa, lsdescLsa net d v = some lsa → lsdescBacklink lsa d v = .ok true →
      ∀ w, candidate net v d lsa = .ok w → Routed (setNexthops w.nexthop)) :
    ∀ c ∈ queue'.contents, Routed (setNexthops c.nexthop) := by
  induction ds generalizing queue with
  | nil =>
      obtain rfl := Except.ok.inj hx
      exact hold
  | cons d ds ih =>
      rw [List.foldlM_cons] at hx
      cases hvisit : visitLink net v queue d with
      | error e => simp [hvisit, bind, Except.bind] at hx
      | ok q =>
          simp only [hvisit, bind, Except.bind] at hx
          refine ih hx (fun c hc => ?_) fun d' hd' => hnew d' (List.mem_cons_of_mem _ hd')
          rw [visitLink] at hvisit
          cases hlsa : lsdescLsa net d v with
          | none =>
              rw [hlsa] at hvisit
              obtain rfl := Except.ok.inj hvisit
              exact hold c hc
          | some lsa =>
              rw [hlsa] at hvisit
              cases hback : lsdescBacklink lsa d v with
              | error e => simp [hback, bind, Except.bind] at hvisit
              | ok found =>
                  cases hw : candidate net v d lsa with
                  | error e =>
                      cases found with
                      | true => simp [hback, hw, bind, Except.bind] at hvisit
                      | false =>
                          simp only [hback, bind, Except.bind, Bool.false_eq_true, if_false] at hvisit
                          obtain rfl := Except.ok.inj hvisit
                          exact hold c hc
                  | ok w =>
                      cases found with
                      | true =>
                          simp only [hback, hw, bind, Except.bind, if_true] at hvisit
                          obtain rfl := Except.ok.inj hvisit
                          rw [contents_enqueue, Multiset.mem_cons] at hc
                          obtain rfl | hc := hc
                          · exact hnew d (by simp) lsa hlsa hback c hw
                          · exact hold c hc
                      | false =>
                          simp only [hback, bind, Except.bind, Bool.false_eq_true, if_false] at hvisit
                          obtain rfl := Except.ok.inj hvisit
                          exact hold c hc

/-- A candidate of a turn that fits. -/
theorem TurnFits.candidate (h : TurnFits net table v) (hv : Routed (setNexthops v.nexthop))
    (hnew : entry table v.vertexId = none) (hmem : lsdesc ∈ lsdescs v.type v.lsa)
    (hlsa : lsdescLsa net lsdesc v = some lsa) (hback : lsdescBacklink lsa lsdesc v = .ok true)
    (hw : candidate net v lsdesc lsa = .ok w) : Routed (setNexthops w.nexthop) := by
  obtain ⟨hnexthop, hrouter, -⟩ := candidate_ok hw
  rw [hnexthop]
  split_ifs with h0 h1
  · exact routed_setNexthops_singleton _
  · have hapart := h.apart hnew h1.2 lsdesc hmem lsa hlsa hback (hrouter h1.1 h1.2)
    exact ((@compact_links_iff (fun _ => clearNexthop) _ _).mpr hapart).routed
  · exact hv.setNexthops

/-- A turn that fits keeps the next hops as the loops leave them. -/
theorem Tidy.turn (h : Tidy table queue) (hsize : queue.size ≠ 0)
    (hfits : TurnFits net table (pqueueDequeue vertexCmp queue).1) {x : SpfTable × Pqueue Vertex}
    (hx : spfTurn net hostnum table queue = .ok x) : Tidy x.1 x.2 := by
  have hcontents := contents_dequeue vertexCmp (Nat.pos_of_ne_zero hsize)
  have hv : (pqueueDequeue vertexCmp queue).1 ∈ queue.contents := hcontents ▸ Multiset.mem_cons_self _ _
  have hrest : ∀ c ∈ (pqueueDequeue vertexCmp queue).2.contents, Routed (setNexthops c.nexthop) := fun c hc =>
    h.queue c (hcontents ▸ Multiset.mem_cons_of_mem hc)
  have hrouted := h.queue _ hv
  rw [spfTurn] at hx
  generalize pqueueDequeue vertexCmp queue = d at hfits hrest hrouted hx
  obtain ⟨v, rest⟩ := d
  obtain ⟨gs, hk⟩ := h.kept
  simp only at hx hfits hrest hrouted
  cases hinstall : spfInstall v table hostnum with
  | error e => simp [hinstall, bind, Except.bind] at hx
  | ok y =>
      obtain ⟨hk', hroutes', hnew⟩ := install_routes hk h.routes hrouted hinstall
      obtain ⟨t, new⟩ := y
      simp only [hinstall, bind, Except.bind] at hx
      cases new with
      | false =>
          obtain rfl := Except.ok.inj hx
          exact ⟨hk', hroutes', hrest⟩
      | true =>
          simp only [if_true] at hx
          cases hvisits : (lsdescs v.type v.lsa).foldlM (visitLink net v) rest with
          | error e => simp [hvisits] at hx
          | ok q =>
              simp only [hvisits] at hx
              obtain rfl := Except.ok.inj hx
              exact ⟨hk', hroutes', visitLinks_queue hvisits hrest fun d hd lsa hlsa hback w hw =>
                hfits.candidate hrouted (hnew.mp rfl) hd hlsa hback hw⟩

/-- A calculation begins with no routes and one vertex. -/
theorem tidy_root (hstart : Left start) (hempty : spfTableFinish start = .ok table) {root : Vertex} :
    Tidy table (pqueueEnqueue vertexCmp { root with nexthop := [⟨0, loopback⟩] } pqueueCreate) := by
  obtain ⟨gs, hgs⟩ := hstart.kept
  obtain ⟨t, ht, hk⟩ := hgs.finish
  obtain rfl := Except.ok.inj (ht.symm.trans hempty)
  refine ⟨⟨[], hk⟩, fun p r hr => ?_, fun c hc => ?_⟩
  · rw [hk.entry_eq] at hr
    exact absurd hr (by simp [groupAt])
  · rw [contents_enqueue, contents_create] at hc
    obtain rfl := Multiset.mem_singleton.mp hc
    exact routed_setNexthops_singleton _

/-- What every state of a calculation satisfies, if its turns do what keeps the next hops in order. -/
theorem Underway.tidy (hstart : Left start)
    (hfits : ∀ table queue, Underway net routerId hostnum start table queue → queue.size ≠ 0 → Tidy table queue →
      TurnFits net table (pqueueDequeue vertexCmp queue).1)
    (h : Underway net routerId hostnum start table queue) : Tidy table queue := by
  induction h with
  | root hempty hlsa hroot => exact tidy_root hstart hempty
  | turn h hsize hx ih => exact ih.turn hsize (hfits _ _ h hsize ih) hx

/-- The routes that a calculation leaves. -/
theorem calculated_routes (hstart : Left start)
    (htidy : ∀ table queue, Underway net routerId hostnum start table queue → Tidy table queue)
    (hx : spfCalculation n net routerId start hostnum = .ok table) : ∀ p, ∀ r ∈ entry table p, Routed r.nexthop := by
  obtain ⟨gs, hgs⟩ := hstart.kept
  obtain ⟨t, ht, hk⟩ := hgs.finish
  simp only [spfCalculation, ht, bind, Except.bind] at hx
  cases hlsa : lookup net.lsdb ⟨lstypeRouter, 0, routerId⟩ with
  | none =>
      simp only [hlsa] at hx
      obtain rfl := Except.ok.inj hx
      intro p r hr
      rw [hk.entry_eq] at hr
      exact absurd hr (by simp [groupAt])
  | some lsa =>
      simp only [hlsa] at hx
      cases hroot : vertexCreate lsa with
      | error e => simp [hroot] at hx
      | ok root =>
          simp only [hroot] at hx
          obtain ⟨queue, hreach⟩ := (Underway.root ht hlsa hroot).loop hx
          exact (htidy _ _ hreach).routes

/-- The walk over the prefixes of an LSA comes to an end. -/
theorem prefixLoop_ends {stop : UInt8 → Bool} {fields : Nat → List Prefixes.Access} {current prefixNum : Nat}
    (hn : lsa.size - current < n) : ∃ ds, (Prefixes.prefixLoop stop fields lsa n current prefixNum).result = some ds := by
  induction n generalizing current prefixNum with
  | zero => omega
  | succ n ih =>
      by_cases h : current < lsa.size ∧ prefixNum ≠ 0
      · by_cases hgo : stop (lsa.bytes current) ∨
            lsa.size < current + Prefixes.prefixSize (lsa.bytes current).toNat
        · rw [Prefixes.prefixLoop_stop h hgo]
          exact ⟨[], rfl⟩
        · obtain ⟨-, hres⟩ := @Prefixes.prefixLoop_record stop fields lsa n current prefixNum h hgo
          have hsize : Prefixes.prefixSize (lsa.bytes current).toNat =
              Prefixes.prefixSpace (lsa.bytes current).toNat + 4 := rfl
          obtain ⟨ds, hds⟩ := @ih (current + Prefixes.prefixSize (lsa.bytes current).toNat) (prefixNum - 1) (by omega)
          rw [hres, hds]
          exact ⟨_, rfl⟩
      · rw [Prefixes.prefixLoop_done h]
        exact ⟨[], rfl⟩

theorem intraPrefixes_iff :
    (∃ ds d, (Prefixes.intraPrefixes lsa).result = some ds ∧ d ∈ ds) ↔ HasPrefix lsa := by
  have hsize : Prefixes.prefixSize (lsa.bytes 12).toNat = Prefixes.prefixSpace (lsa.bytes 12).toNat + 4 := rfl
  by_cases h : 12 < lsa.size ∧ (Prefixes.half lsa 0).toNat ≠ 0
  · have hhalf : Prefixes.half lsa 0 ≠ 0 := fun hzero => h.2 (by rw [hzero]; rfl)
    by_cases hgo : false = true ∨ lsa.size < 12 + Prefixes.prefixSize (lsa.bytes 12).toNat
    · rw [Prefixes.intraPrefixes, Prefixes.prefixLoop_stop h hgo]
      refine iff_of_false ?_ fun hp => ?_
      · rintro ⟨ds, d, hds, hd⟩
        obtain rfl := Option.some.inj hds
        exact absurd hd (List.not_mem_nil)
      · have hle := hp.2
        obtain hno | hlong := hgo
        · exact absurd hno (by decide)
        · omega
    · obtain ⟨-, hres⟩ := @Prefixes.prefixLoop_record (fun _ => false)
        (fun current => [.read (current + 1) 1, .read (current + 2) 2]) lsa lsa.size 12 _ h hgo
      obtain ⟨ds, hds⟩ := @prefixLoop_ends lsa lsa.size (fun _ => false)
        (fun current => [.read (current + 1) 1, .read (current + 2) 2])
        (12 + Prefixes.prefixSize (lsa.bytes 12).toNat) ((Prefixes.half lsa 0).toNat - 1) (by omega)
      refine iff_of_true ?_ ⟨hhalf, ?_⟩
      · rw [hds] at hres
        exact ⟨_, _, hres, List.mem_cons_self⟩
      · by_contra hlong
        exact hgo (.inr (by omega))
  · rw [Prefixes.intraPrefixes, Prefixes.prefixLoop_done h]
    refine iff_of_false ?_ fun hp => h ⟨by have := hp.2; omega, fun hzero => hp.1 (UInt16.toNat_inj.mp hzero)⟩
    rintro ⟨ds, d, hds, hd⟩
    obtain rfl := Option.some.inj hds
    exact absurd hd (List.not_mem_nil)

/-- The loops for the prefixes of an LSA are safe unless they come to a full array. -/
theorem intra_safe_iff (hroutes : ∀ p, ∀ r ∈ entry table p, Routed r.nexthop) :
    (∀ x, IntraLoop table lsa x → Safe x) ↔
      (HasPrefix lsa → ∀ r ∈ lsEntry table lsa, (setNexthops r.nexthop).length < multiPathLimit) := by
  constructor
  · intro h hp r hr
    obtain ⟨ds, d, hds, hd⟩ := intraPrefixes_iff.mpr hp
    exact (copyLoop_cells r.nexthop _ _).2.mp (h _ (.record (fun _ => clearNexthop) hr hds hd)).1
  · intro h x hx
    cases hx with
    | @record behind r ds d hentry hds hd =>
        obtain ⟨hres, hin⟩ := copyLoop_cells r.nexthop behind behind
        have hr : Routed r.nexthop := by
          rw [lsEntry] at hentry
          split_ifs at hentry <;> exact hroutes _ r hentry
        exact ⟨hin.mpr (h (intraPrefixes_iff.mp ⟨ds, d, hds, hd⟩) r hentry), _, hres, hr.setNexthops.compact⟩

/-- In a calculation that begins with a table as earlier ones leave it, and in the use of its table, every loop over next
hops stays inside the arrays and leaves them without gaps and duplicates, if and only if no loop that copies or merges
comes to a full array, and no two Link-LSAs whose addresses are taken show the same one. -/
theorem nexthops_safe_iff (net : Topology) (lsas : List SpfLsa) (routerId hostnum : UInt32) (start : SpfTable)
    (hstart : Left start) : RunSafe net lsas routerId hostnum start ↔ RunFits net lsas routerId hostnum start := by
  have hpopped : ∀ queue : Pqueue Vertex, queue.size ≠ 0 →
      (pqueueDequeue vertexCmp queue).1 ∈ queue.contents := by
    intro queue hsize
    rw [contents_dequeue vertexCmp (Nat.pos_of_ne_zero hsize)]
    exact Multiset.mem_cons_self _ _
  constructor
  · intro h
    have htidy : ∀ table queue, Underway net routerId hostnum start table queue → Tidy table queue :=
      fun table queue hreach => hreach.tidy hstart fun t q hr hsize ht =>
        (turn_safe_iff ht (hpopped q hsize)).mp (h.spf t q hr hsize)
    exact ⟨fun t q hr hsize => (turn_safe_iff (htidy t q hr) (hpopped q hsize)).mp (h.spf t q hr hsize),
      fun n t hx lsa hlsa => (intra_safe_iff (calculated_routes hstart htidy hx)).mp (h.intra n t hx lsa hlsa)⟩
  · intro h
    have htidy : ∀ table queue, Underway net routerId hostnum start table queue → Tidy table queue :=
      fun table queue hreach => hreach.tidy hstart fun t q hr hsize _ => h.spf t q hr hsize
    exact ⟨fun t q hr hsize => (turn_safe_iff (htidy t q hr) (hpopped q hsize)).mpr (h.spf t q hr hsize),
      fun n t hx lsa hlsa => (intra_safe_iff (calculated_routes hstart htidy hx)).mpr (h.intra n t hx lsa hlsa)⟩

end Turn

/-- A router with a link of cost 10 to the network of router 2. -/
def lanRouterLsa (advRouter : UInt8) : SpfLsa where
  header := ⟨lstypeRouter, 0, advRouter.toUInt32, 1, 0, 40⟩
  bytes i := [0, 0, 0, 0, 2, 0, 0, 10, 0, 0, 0, 3, 0, 0, 0, 5, 0, 0, 0, 2].getD i 0

/-- The network, with the routers 2 and 1. -/
def lanNetworkLsa : SpfLsa where
  header := ⟨lstypeNetwork, 5, 2, 1, 0, 32⟩
  bytes i := [0, 0, 0, 0, 0, 0, 0, 2, 0, 0, 0, 1].getD i 0

/-- A Link-LSA of router 2 with an address of its own. -/
def lanLinkLsa (id : UInt8) : SpfLsa where
  header := ⟨lstypeLink, id.toUInt32, 2, 1, 0, 44⟩
  bytes i := [1, 0, 0, 0, 0xfe, 0x80, 0, 0, 0, 0, 0, 0, 0, 0, 0, 0, 0, 0, 0, id].getD i 0

def lanNet : Topology :=
  ⟨[lanRouterLsa 1, lanRouterLsa 2, lanNetworkLsa],
    fun ifindex => if ifindex = 3 then some ([1, 2, 3, 4].map lanLinkLsa) else none⟩

/-- The queue of router 1 at the beginning. -/
def lanQueue : Pqueue Vertex :=
  pqueueEnqueue vertexCmp { newVertex .router (lanRouterLsa 1) with nexthop := [⟨0, loopback⟩] } pqueueCreate

/-- In the first two turns it installs itself and the network, in the third router 2, which has four next hops. -/
theorem nexthops_not_safe : ¬ RunSafe lanNet [] 1 0 spfTableCreate := by
  intro h
  have hfull : ((spfTurn lanNet 0 spfTableCreate lanQueue).toOption.elim false fun x =>
      x.2.size ≠ 0 ∧ ((spfTurn lanNet 0 x.1 x.2).toOption.elim false fun y =>
        y.2.size ≠ 0 ∧ (entry y.1 (pqueueDequeue vertexCmp y.2).1.vertexId).isNone ∧
          (setNexthops (pqueueDequeue vertexCmp y.2).1.nexthop).length = multiPathLimit) = true) = true := by
    decide +kernel
  have hroot : Underway lanNet 1 0 spfTableCreate spfTableCreate lanQueue :=
    @Underway.root lanNet 1 0 spfTableCreate spfTableCreate (lanRouterLsa 1) _ rfl rfl rfl
  cases hx : spfTurn lanNet 0 spfTableCreate lanQueue with
  | error e => simp [hx, Except.toOption] at hfull
  | ok x =>
      rw [hx] at hfull
      obtain ⟨hx2, hfull⟩ := of_decide_eq_true hfull
      cases hy : spfTurn lanNet 0 x.1 x.2 with
      | error e => simp [hy, Except.toOption] at hfull
      | ok y =>
          rw [hy] at hfull
          obtain ⟨hy2, hnone, hlen⟩ := of_decide_eq_true hfull
          have hreach := (hroot.turn (by decide) hx).turn hx2 hy
          have hsafe := h.spf _ _ hreach hy2 _ (.install fun _ => clearNexthop)
          rw [Option.isNone_iff_eq_none.mp hnone] at hsafe
          have hlt := (copyLoop_cells _ _ _).2.mp hsafe.1
          omega

/-- The calculation ends after so many turns, in each of which the vertex that is taken has fewer next hops than there is
room for. -/
def roomyTurns (net : Topology) : Nat → SpfTable → Pqueue Vertex → Bool
  | 0, _, queue => queue.size = 0
  | n + 1, table, queue =>
    (setNexthops (pqueueDequeue vertexCmp queue).1.nexthop).length < multiPathLimit ∧
      (spfTurn net 0 table queue).toOption.elim false fun x => roomyTurns net n x.1 x.2

/-- Router 1 is installed in the first turn and router 2 in the second; the third finds router 1 again. -/
theorem roomyTurns_of_underway {table : SpfTable} {queue : Pqueue Vertex}
    (h : Underway sampleNet 1 0 spfTableCreate table queue) : ∃ n, roomyTurns sampleNet n table queue = true := by
  induction h with
  | root hempty hlsa hroot =>
      cases hempty
      cases hlsa
      cases hroot
      exact ⟨3, by decide +kernel⟩
  | turn h hsize hx ih =>
      obtain ⟨n, hn⟩ := ih
      cases n with
      | zero => exact absurd (of_decide_eq_true hn) hsize
      | succ n =>
          have hnext := (of_decide_eq_true hn).2
          rw [hx] at hnext
          exact ⟨n, hnext⟩

/-- With two routers and no Link-LSAs every loop is safe. -/
theorem nexthops_safe_iff_two_routers : RunSafe sampleNet [] 1 0 spfTableCreate := by
  refine (nexthops_safe_iff sampleNet [] 1 0 spfTableCreate .create).mpr ⟨fun table queue h hsize => ⟨?_, ?_⟩, nofun⟩
  · obtain ⟨n, hn⟩ := roomyTurns_of_underway h
    cases n with
    | zero => exact absurd (of_decide_eq_true hn) hsize
    | succ n => exact fun _ => (of_decide_eq_true hn).1
  · intro _ _ lsdesc _ lsa _ _ _
    have hnone : ∀ v, firstHopLsas sampleNet v lsdesc = [] := fun v => rfl
    rw [hnone]
    exact List.Pairwise.nil

end Harry.Spf
