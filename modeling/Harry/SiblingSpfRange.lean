import Harry.SiblingSpfRun

/-! The numbers of `ospf6_spf_calculation`. A cost is 32 bits wide and a number of router hops eight, and
`ospf6_vertex_cmp` takes the difference of two costs for a signed number. Each candidate is followed with the metrics
and the hops along the path it was found on added up; beside the calculation runs one whose numbers have no limit. The
two find the same candidates as long as no cost gets to `2 ^ 31` and no candidate is more than 255 hops away. -/

namespace Harry.Spf

open Harry.Rfp Harry.Base Harry.Table Harry.Sibling Harry.Routes Harry.Queue

/-- A candidate, with the sum of the metrics and the number of router hops of its path. -/
structure Tracked where
  vertex : Vertex
  cost : Nat
  hops : Nat
  deriving Inhabited

def Tracked.distance (w : Tracked) : Distance := toLex (w.cost, w.hops)

/-- The metric of a link, and the router hops it takes. -/
def linkLength (v : Vertex) (lsdesc : Lsdesc) (lsa : SpfLsa) : Nat × Nat :=
  if v.type = .router then (lsdesc.metric.toNat, if vertexType lsa = .network then 0 else 1) else (0, 1)

/-- A vertex that a link leads to. -/
def Tracked.next (v : Tracked) (lsdesc : Lsdesc) (lsa : SpfLsa) (w : Vertex) : Tracked :=
  ⟨w, v.cost + (linkLength v.vertex lsdesc lsa).1, v.hops + (linkLength v.vertex lsdesc lsa).2⟩

/-- The candidate for a link description, if there is one. -/
def trackedLink (net : Topology) (v : Tracked) (lsdesc : Lsdesc) : Except Abort (Option Tracked) :=
  match lsdescLsa net lsdesc v.vertex with
  | none => .ok none
  | some lsa => do
    let found ← lsdescBacklink lsa lsdesc v.vertex
    if found then do
      let w ← candidate net v.vertex lsdesc lsa
      pure (some (v.next lsdesc lsa w))
    else pure none

/-- The candidates for some link descriptions, up to one at which an assertion fails. -/
def searchLinks (cmp : Tracked → Tracked → Int) (next : Lsdesc → Except Abort (Option Tracked)) :
    List Lsdesc → Pqueue Tracked → List Tracked × Except Abort (Pqueue Tracked)
  | [], queue => ([], .ok queue)
  | lsdesc :: l, queue =>
    match next lsdesc with
    | .error e => ([], .error e)
    | .ok none => searchLinks cmp next l queue
    | .ok (some w) =>
      let rest := searchLinks cmp next l (pqueueEnqueue cmp w queue)
      (w :: rest.1, rest.2)

/-- `ospf6_vertex_cmp`. -/
def trackedCmp (a b : Tracked) : Int := vertexCmp a.vertex b.vertex

/-- The loop of `ospf6_spf_calculation`, with the candidates it makes. -/
def trackedLoop (net : Topology) (hostnum : UInt32) :
    Nat → SpfTable → Pqueue Tracked → List Tracked × Except Abort SpfTable
  | 0, table, queue => ([], if queue.size = 0 then .ok table else .error .assertion)
  | n + 1, table, queue =>
    if queue.size = 0 then ([], .ok table)
    else
      let (v, queue) := pqueueDequeue trackedCmp queue
      match spfInstall v.vertex table hostnum with
      | .error e => ([], .error e)
      | .ok (table, false) => trackedLoop net hostnum n table queue
      | .ok (table, true) =>
        let found := searchLinks trackedCmp (trackedLink net v) (lsdescs v.vertex.type v.vertex.lsa) queue
        match found.2 with
        | .error e => (found.1, .error e)
        | .ok queue =>
          let rest := trackedLoop net hostnum n table queue
          (found.1 ++ rest.1, rest.2)

/-- The root of the tree. -/
def trackedRoot (lsa : SpfLsa) : Tracked :=
  ⟨{ newVertex (vertexType lsa) lsa with nexthop := [⟨0, loopback⟩] }, 0, 0⟩

/-- `ospf6_spf_calculation`, for so many candidates, with those it makes. -/
def trackedCalculation (n : Nat) (net : Topology) (routerId : UInt32) (table : SpfTable) (hostnum : UInt32) :
    List Tracked × Except Abort SpfTable :=
  match spfTableFinish table, lookup net.lsdb (rootKey routerId) with
  | .error e, _ => ([], .error e)
  | .ok table, none => ([], .ok table)
  | .ok table, some lsa =>
    let rest := trackedLoop net hostnum n table (pqueueEnqueue trackedCmp (trackedRoot lsa) pqueueCreate)
    (trackedRoot lsa :: rest.1, rest.2)

section Erasure

variable {net : Topology} {hostnum : UInt32} {queue : Pqueue Tracked} {queue' : Pqueue Vertex} {v : Tracked}

/-- The vertex of a candidate. -/
def IsVertex (w : Tracked) (v : Vertex) : Prop := w.vertex = v

theorem alike_vertexCmp : Alike IsVertex trackedCmp vertexCmp := by
  rintro x x' y y' rfl rfl
  exact ⟨Iff.rfl, Iff.rfl⟩

theorem trackedLink_eq (v : Tracked) (queue : Pqueue Vertex) (d : Lsdesc) : visitLink net v.vertex queue d =
    (trackedLink net v d).map fun w => match w with
      | none => queue
      | some w => pqueueEnqueue vertexCmp w.vertex queue := by
  unfold visitLink trackedLink
  cases lsdescLsa net d v.vertex with
  | none => rfl
  | some lsa =>
      dsimp only
      cases lsdescBacklink lsa d v.vertex with
      | error e => rfl
      | ok found =>
          cases found with
          | false => rfl
          | true =>
              simp only [bind, Except.bind, if_true]
              cases candidate net v.vertex d lsa with
              | error e => rfl
              | ok w => rfl

/-- The loop over the link descriptions goes on as if nothing was followed. -/
theorem searchLinks_erase (net : Topology) (v : Tracked) (l : List Lsdesc) (h : queue.Related IsVertex queue') :
    (∃ e, (searchLinks trackedCmp (trackedLink net v) l queue).2 = .error e ∧
        l.foldlM (visitLink net v.vertex) queue' = .error e) ∨
      ∃ q q', (searchLinks trackedCmp (trackedLink net v) l queue).2 = .ok q ∧
        l.foldlM (visitLink net v.vertex) queue' = .ok q' ∧ q.Related IsVertex q' := by
  induction l generalizing queue queue' with
  | nil => exact .inr ⟨queue, queue', rfl, rfl, h⟩
  | cons d l ih =>
      rw [List.foldlM_cons, trackedLink_eq]
      unfold searchLinks
      cases trackedLink net v d with
      | error e => exact .inl ⟨e, rfl, rfl⟩
      | ok w =>
          cases w with
          | none => exact ih h
          | some w => exact ih (h.enqueue alike_vertexCmp rfl)

theorem trackedLoop_erase (n : Nat) (table : SpfTable) (h : queue.Related IsVertex queue') :
    (trackedLoop net hostnum n table queue).2 = spfLoop net hostnum n table queue' := by
  induction n generalizing table queue queue' with
  | zero =>
      unfold trackedLoop spfLoop
      rw [h.size]
  | succ n ih =>
      unfold trackedLoop spfLoop
      rw [h.size]
      split_ifs with hsize
      · rfl
      · obtain ⟨hv, hrest⟩ := h.dequeue alike_vertexCmp (Nat.pos_of_ne_zero hsize)
        generalize pqueueDequeue trackedCmp queue = r at hv hrest
        generalize pqueueDequeue vertexCmp queue' = r' at hv hrest
        obtain ⟨v, rest⟩ := r
        obtain ⟨v', rest'⟩ := r'
        obtain rfl : v.vertex = v' := hv
        dsimp only
        cases spfInstall v.vertex table hostnum with
        | error e => rfl
        | ok t =>
            obtain ⟨table, new⟩ := t
            cases new with
            | false => exact ih table hrest
            | true =>
                obtain ⟨e, hfound, hfold⟩ | ⟨q, q', hfound, hfold, hq⟩ := searchLinks_erase net v
                  (lsdescs v.vertex.type v.vertex.lsa) hrest
                · simp only [hfound, bind, Except.bind, if_true, hfold]
                · simp only [hfound, bind, Except.bind, if_true, hfold]
                  exact ih table hq

/-- What is followed does not change the calculation. -/
theorem trackedCalculation_erase (n : Nat) (net : Topology) (routerId : UInt32) (table : SpfTable) (hostnum : UInt32) :
    (trackedCalculation n net routerId table hostnum).2 = spfCalculation n net routerId table hostnum := by
  unfold trackedCalculation spfCalculation
  cases spfTableFinish table with
  | error e => rfl
  | ok table =>
      simp only [bind, Except.bind, rootKey]
      cases hroot : lookup net.lsdb ⟨lstypeRouter, 0, routerId⟩ with
      | none => rfl
      | some root =>
          have htype : root.header.type = lstypeRouter := (LsaKey.mk.inj (lookup_key hroot).2).1
          have hcreate : vertexCreate root = .ok (newVertex (vertexType root) root) := by
            rw [vertexCreate, if_pos htype, vertexType_router htype]
          have hempty : (pqueueCreate : Pqueue Tracked).Related IsVertex pqueueCreate :=
            ⟨rfl, fun j hj => absurd hj (Nat.not_lt_zero j)⟩
          have hqueue := hempty.enqueue alike_vertexCmp (x := trackedRoot root) rfl
          simp only [hcreate]
          exact trackedLoop_erase n table hqueue

end Erasure

/-- The order by cost, and by hops where the costs are equal. -/
def exactCmp (a b : Tracked) : Int := if a.cost ≠ b.cost then a.cost - b.cost else a.hops - b.hops

/-- The vertex that a link leads to. -/
def exactLink (net : Topology) (v : Tracked) (lsdesc : Lsdesc) : Except Abort (Option Tracked) :=
  match lsdescLsa net lsdesc v.vertex with
  | none => .ok none
  | some lsa =>
    if (lsdescs (vertexType lsa) lsa).any (isBacklink lsa lsdesc v.vertex) then
      (vertexCreate lsa).map fun w => some (v.next lsdesc lsa w)
    else .ok none

/-- The search, with the prefixes of the vertices it has been to. -/
def exactLoop (net : Topology) : Nat → List (List Bool) → Pqueue Tracked → List Tracked
  | 0, _, _ => []
  | n + 1, settled, queue =>
    if queue.size = 0 then []
    else
      let (v, queue) := pqueueDequeue exactCmp queue
      if settled.contains v.vertex.vertexId then exactLoop net n settled queue
      else
        let found := searchLinks exactCmp (exactLink net v) (lsdescs v.vertex.type v.vertex.lsa) queue
        match found.2 with
        | .error _ => found.1
        | .ok queue => found.1 ++ exactLoop net n (v.vertex.vertexId :: settled) queue

/-- The candidates of a shortest path calculation on numbers without limits, up to so many. -/
def exactCandidates (n : Nat) (net : Topology) (routerId : UInt32) : List Tracked :=
  match lookup net.lsdb (rootKey routerId) with
  | none => []
  | some lsa => trackedRoot lsa :: exactLoop net n [] (pqueueEnqueue exactCmp (trackedRoot lsa) pqueueCreate)

/-- A candidate whose numbers are within the limits. -/
def Tracked.Small (w : Tracked) : Prop := w.cost < 2 ^ 31 ∧ w.hops < 2 ^ 8

/-- A candidate with the true numbers, and a cost that compares well. -/
structure Tracked.Good (w : Tracked) : Prop where
  cost : w.vertex.cost.toNat = w.cost
  hops : w.vertex.hops.toNat = w.hops
  near : w.cost < 2 ^ 31

section Exact

variable {net : Topology} {hostnum : UInt32} {v e : Tracked}

theorem goesBy_exactCmp (a b : Tracked) : GoesBy exactCmp Tracked.distance a b := by
  simp only [GoesBy, Prod.Lex.lt_iff, Tracked.distance, ofLex_toLex, exactCmp]
  by_cases h : a.cost = b.cost
  · rw [if_neg (not_not.mpr h)]
    omega
  · rw [if_pos h]
    omega

theorem Tracked.Good.distance_eq (h : v.Good) : v.vertex.distance = v.distance := by
  rw [Vertex.distance, Tracked.distance, h.cost, h.hops]

/-- The same candidate on both sides, with the true numbers. -/
structure Matches (v e : Tracked) : Prop where
  type : v.vertex.type = e.vertex.type
  lsa : v.vertex.lsa = e.vertex.lsa
  vertexId : v.vertex.vertexId = e.vertex.vertexId
  cost : v.cost = e.cost
  hops : v.hops = e.hops
  good : v.Good

theorem Matches.distance_eq (h : Matches v e) : v.distance = e.distance := by
  rw [Tracked.distance, Tracked.distance, h.cost, h.hops]

theorem alike_exactCmp : Alike Matches trackedCmp exactCmp := by
  intro x x' y y' hx hy
  have hnear : ∀ {w : Tracked}, w.Good → w.vertex.Near := fun {w} h => by
    rw [Vertex.Near, h.cost]
    exact h.near
  have hgoes := goesBy_vertexCmp (hnear hx.good) (hnear hy.good)
  have hgoes' := goesBy_exactCmp x' y'
  simp only [GoesBy, hx.good.distance_eq, hy.good.distance_eq, hx.distance_eq, hy.distance_eq] at hgoes
  exact ⟨hgoes.1.trans hgoes'.1.symm, hgoes.2.trans hgoes'.2.symm⟩

theorem vertexCreate_cases (lsa : SpfLsa) :
    vertexCreate lsa = .ok (newVertex (vertexType lsa) lsa) ∨ vertexCreate lsa = .error .assertion := by
  unfold vertexCreate vertexType
  split_ifs
  · exact .inl rfl
  · exact .inl rfl
  · exact .inr rfl

/-- The numbers of a vertex that a link leads to are true where they are small. -/
theorem Tracked.Good.next_iff (h : v.Good) (d : Lsdesc) (lsa : SpfLsa) {w : Vertex}
    (hcost : w.cost = if v.vertex.type = .router then v.vertex.cost + d.metric else v.vertex.cost)
    (hhops : w.hops = if v.vertex.type = .router then v.vertex.hops + (if vertexType lsa = .network then 0 else 1)
      else v.vertex.hops + 1) : (v.next d lsa w).Good ↔ (v.next d lsa w).Small := by
  have hmetric := metric_lt d
  have hnear := h.near
  have hbyte := v.vertex.hops.toNat_lt
  have hc : w.cost.toNat = (v.next d lsa w).cost := by
    rw [hcost]
    show _ = v.cost + (linkLength v.vertex d lsa).1
    rw [← h.cost] at hnear ⊢
    by_cases hv : v.vertex.type = .router
    · rw [linkLength, if_pos hv, if_pos hv, UInt32.toNat_add, Nat.mod_eq_of_lt]
      omega
    · rw [linkLength, if_neg hv, if_neg hv]
      rfl
  have hn : w.hops.toNat = (v.next d lsa w).hops % 2 ^ 8 := by
    rw [hhops]
    show _ = (v.hops + (linkLength v.vertex d lsa).2) % 2 ^ 8
    rw [← h.hops, linkLength]
    split_ifs
    · rw [UInt8.add_zero, Nat.add_zero, Nat.mod_eq_of_lt hbyte]
    · rw [UInt8.toNat_add]
      rfl
    · rw [UInt8.toNat_add]
      rfl
  constructor
  · intro hg
    refine ⟨hg.near, ?_⟩
    rw [← hg.hops]
    exact w.hops.toNat_lt
  · rintro ⟨hsmall, hlt⟩
    exact ⟨hc, hn.trans (Nat.mod_eq_of_lt hlt), hsmall⟩

/-- A link leads to the same vertex on both sides, and the numbers there are true where they are small. -/
theorem trackedLink_exactLink (net : Topology) (h : Matches v e) (d : Lsdesc) :
    (∃ a b, trackedLink net v d = .error a ∧ exactLink net e d = .error b) ∨
      (trackedLink net v d = .ok none ∧ exactLink net e d = .ok none) ∨
      ∃ w w', trackedLink net v d = .ok (some w) ∧ exactLink net e d = .ok (some w') ∧ (w.Good → Matches w w') ∧
        (w.Good ↔ w'.Small) := by
  have hlsa : lsdescLsa net d v.vertex = lsdescLsa net d e.vertex := by
    simp only [lsdescLsa, h.type]
  have hlength : ∀ lsa, linkLength v.vertex d lsa = linkLength e.vertex d lsa := fun lsa => by
    simp only [linkLength, h.type]
  unfold trackedLink exactLink
  rw [← hlsa]
  cases hfound : lsdescLsa net d v.vertex with
  | none => exact .inr (.inl ⟨rfl, rfl⟩)
  | some lsa =>
      have hrouter := lsdescLsa_router hfound
      have hback : isBacklink lsa d e.vertex = isBacklink lsa d v.vertex := by
        funext b
        simp only [isBacklink, h.type, h.lsa]
      have hnn : ¬ (lsa.header.type = lstypeNetwork ∧ v.vertex.type = .network) := by
        rintro ⟨hlt, hvt⟩
        exact absurd (hlt.symm.trans (hrouter hvt)) (by decide)
      dsimp only
      rw [lsdescBacklink_eq hnn, hback]
      cases (lsdescs (vertexType lsa) lsa).any (isBacklink lsa d v.vertex) with
      | false => exact .inr (.inl ⟨rfl, rfl⟩)
      | true =>
          obtain hcreate | hcreate := vertexCreate_cases lsa
          · have hcandidate : ∃ c, candidate net v.vertex d lsa = .ok c ∧ c.type = vertexType lsa ∧ c.lsa = lsa ∧
                c.vertexId = linkstatePrefix lsa.header.advRouter lsa.header.id ∧
                c.cost = (if v.vertex.type = .router then v.vertex.cost + d.metric else v.vertex.cost) ∧
                c.hops = (if v.vertex.type = .router then v.vertex.hops + (if vertexType lsa = .network then 0 else 1)
                  else v.vertex.hops + 1) := by
              have hmake : ∃ l, candidate net v.vertex d lsa = _ := candidate_of_create hcreate hrouter
              obtain ⟨l, hl⟩ := hmake
              exact ⟨_, hl, rfl, rfl, rfl, rfl, rfl⟩
            obtain ⟨c, hc, hctype, hclsa, hcid, hccost, hchops⟩ := hcandidate
            refine .inr (.inr ⟨v.next d lsa c, e.next d lsa (newVertex (vertexType lsa) lsa), ?_, ?_,
              fun hg => ⟨hctype, hclsa, hcid, ?_, ?_, hg⟩, ?_⟩)
            · simp only [bind, Except.bind, if_true, hc]
              rfl
            · rw [hcreate, if_pos rfl]
              rfl
            · show v.cost + (linkLength v.vertex d lsa).1 = e.cost + (linkLength e.vertex d lsa).1
              rw [h.cost, hlength]
            · show v.hops + (linkLength v.vertex d lsa).2 = e.hops + (linkLength e.vertex d lsa).2
              rw [h.hops, hlength]
            · rw [h.good.next_iff d lsa hccost hchops]
              show v.cost + (linkLength v.vertex d lsa).1 < _ ∧ v.hops + (linkLength v.vertex d lsa).2 < _ ↔
                e.cost + (linkLength e.vertex d lsa).1 < _ ∧ e.hops + (linkLength e.vertex d lsa).2 < _
              rw [h.cost, h.hops, hlength]
          · refine .inl ⟨.assertion, .assertion, ?_, ?_⟩
            · simp only [bind, Except.bind, if_true, candidate, hcreate]
            · rw [hcreate, if_pos rfl]
              rfl

variable {queue queue' : Pqueue Tracked}

/-- Both sides find the same candidates, as long as the numbers are true. -/
theorem searchLinks_matches (net : Topology) (h : Matches v e) (l : List Lsdesc) (hq : queue.Related Matches queue') :
    ((∀ w ∈ (searchLinks trackedCmp (trackedLink net v) l queue).1, w.Good) ↔
      ∀ w ∈ (searchLinks exactCmp (exactLink net e) l queue').1, w.Small) ∧
    ((∀ w ∈ (searchLinks trackedCmp (trackedLink net v) l queue).1, w.Good) →
      (∃ a b, (searchLinks trackedCmp (trackedLink net v) l queue).2 = .error a ∧
        (searchLinks exactCmp (exactLink net e) l queue').2 = .error b) ∨
      ∃ q q', (searchLinks trackedCmp (trackedLink net v) l queue).2 = .ok q ∧
        (searchLinks exactCmp (exactLink net e) l queue').2 = .ok q' ∧ q.Related Matches q') := by
  induction l generalizing queue queue' with
  | nil => exact ⟨by simp [searchLinks], fun _ => .inr ⟨queue, queue', rfl, rfl, hq⟩⟩
  | cons d l ih =>
      unfold searchLinks
      obtain ⟨a, b, hv, he⟩ | ⟨hv, he⟩ | ⟨w, w', hv, he, hmatches, hgood⟩ := trackedLink_exactLink net h d
      · rw [hv, he]
        exact ⟨by simp, fun _ => .inl ⟨a, b, rfl, rfl⟩⟩
      · rw [hv, he]
        exact ih hq
      · rw [hv, he]
        simp only [List.forall_mem_cons]
        by_cases hw : w.Good
        · obtain ⟨hiff, hrest⟩ := ih (hq.enqueue alike_exactCmp (hmatches hw))
          exact ⟨and_congr hgood hiff, fun hall => hrest hall.2⟩
        · exact ⟨iff_of_false (fun hall => hw hall.1) fun hall => hw (hgood.mpr hall.1), fun hall => absurd hall.1 hw⟩

theorem exactLink_le {d : Lsdesc} {w : Tracked} (h : exactLink net e d = .ok (some w)) : e.distance ≤ w.distance := by
  have hnext : ∀ lsa x, e.distance ≤ (e.next d lsa x).distance := fun lsa x => by
    rw [Tracked.distance, Tracked.distance, Prod.Lex.le_iff]
    simp only [Tracked.next, ofLex_toLex]
    omega
  unfold exactLink at h
  split at h
  · cases h
  · split_ifs at h
    · next lsa _ _ =>
        cases hcreate : vertexCreate lsa with
        | error a =>
            rw [hcreate] at h
            cases h
        | ok x =>
            rw [hcreate] at h
            cases h
            exact hnext lsa x
    · cases h

/-- The candidates of the unlimited calculation are no nearer than where they are found from, and go in the queue. -/
theorem searchLinks_exact (net : Topology) (e : Tracked) (l : List Lsdesc)
    (hvalid : queue.Valid exactCmp Tracked.distance) :
    (∀ w ∈ (searchLinks exactCmp (exactLink net e) l queue).1, e.distance ≤ w.distance) ∧
      ∀ q, (searchLinks exactCmp (exactLink net e) l queue).2 = .ok q → q.Valid exactCmp Tracked.distance ∧
        q.contents = queue.contents + ((searchLinks exactCmp (exactLink net e) l queue).1 : List Tracked) := by
  induction l generalizing queue with
  | nil =>
      refine ⟨by simp [searchLinks], fun q hq => ?_⟩
      obtain rfl := Except.ok.inj hq
      exact ⟨hvalid, by simp [searchLinks]⟩
  | cons d l ih =>
      unfold searchLinks
      cases hlink : exactLink net e d with
      | error a => exact ⟨by simp, fun q hq => absurd hq (by simp)⟩
      | ok o =>
          cases o with
          | none => exact ih hvalid
          | some w =>
              have hvalid' : (pqueueEnqueue exactCmp w queue).Valid exactCmp Tracked.distance :=
                hvalid.enqueue fun x _ y _ => goesBy_exactCmp x y
              obtain ⟨hle, hrest⟩ := ih hvalid'
              refine ⟨List.forall_mem_cons.mpr ⟨?_, hle⟩, fun q hq => ⟨(hrest q hq).1, ?_⟩⟩
              · exact exactLink_le hlink
              · rw [(hrest q hq).2, contents_enqueue, ← Multiset.cons_coe, Multiset.cons_add, Multiset.add_cons]

/-- The table has a route for each prefix that the search has been to, and the candidates are no nearer. -/
structure Settles (table : SpfTable) (gs : List (List Bool × List Addr)) (settled : List (List Bool))
    (queue : Pqueue Tracked) : Prop where
  kept : table.Kept gs
  none_iff : ∀ p, groupAt gs p = [] ↔ p ∉ settled
  ordered : ∀ p, ∀ a ∈ groupAt gs p, ∀ w ∈ queue.contents,
    (toLex ((table.routes.route a).path.cost.toNat, (table.option a).hops.toNat) : Distance) ≤ w.distance

/-- The nearest candidate is installed where its prefix is a new one. -/
theorem Settles.install {table : SpfTable} {gs : List (List Bool × List Addr)} {settled : List (List Bool)}
    (hs : Settles table gs settled queue) (hostnum : UInt32) (hv : Matches v e) (hset : e.vertex.vertexId ∉ settled)
    {rest : Multiset Tracked} (hcontents : queue.contents = e ::ₘ rest) (hmin : ∀ x ∈ rest, e.distance ≤ x.distance) :
    ∃ table' gs', spfInstall v.vertex table hostnum = .ok (table', true) ∧
      ∀ (q : Pqueue Tracked) (ws : List Tracked), q.contents = rest + ws → (∀ w ∈ ws, e.distance ≤ w.distance) →
        Settles table' gs' (e.vertex.vertexId :: settled) q := by
  have hg := (hs.none_iff _).mpr hset
  rw [← hv.vertexId] at hg
  obtain ⟨table', gs', hinstall, hkept, hroute, hoption, hgroup⟩ := hs.kept.install hg hostnum
  refine ⟨table', gs', hinstall, fun q ws hq hws => ⟨hkept, fun p => ?_, fun p a ha w hw => ?_⟩⟩
  · rw [hgroup, hv.vertexId, List.mem_cons, not_or, ← hs.none_iff]
    split_ifs with hp
    · simp [hp]
    · simp [hp]
  · have hle : e.distance ≤ w.distance := by
      rw [hq] at hw
      obtain hw | hw := Multiset.mem_add.mp hw
      · exact hmin w hw
      · exact hws w (Multiset.mem_coe.mp hw)
    rw [hgroup] at ha
    rw [hroute, hoption]
    split_ifs at ha with hp
    · obtain rfl := List.mem_singleton.mp ha
      rw [Function.update_self, Function.update_self]
      have hdistance : v.vertex.distance = e.distance := hv.good.distance_eq.trans hv.distance_eq
      exact le_of_eq_of_le hdistance hle
    · have hne : a ≠ table.brk := by
        rintro rfl
        rw [hs.kept.rep.groupAt_eq] at ha
        have hlive := hs.kept.rep.live _ (List.mem_of_mem_filter ha)
        rw [hs.kept.free _ le_rfl] at hlive
        cases hlive
      rw [Function.update_of_ne hne, Function.update_of_ne hne]
      exact (hs.ordered p a ha e (hcontents ▸ Multiset.mem_cons_self _ _)).trans hle

/-- The numbers of all candidates are true exactly where those of the unlimited calculation are small. -/
theorem trackedLoop_good_iff {table : SpfTable} {gs : List (List Bool × List Addr)} {settled : List (List Bool)}
    (hs : Settles table gs settled queue') (hq : queue.Related Matches queue')
    (hvalid : queue'.Valid exactCmp Tracked.distance) (n : Nat) :
    (∀ w ∈ (trackedLoop net hostnum n table queue).1, w.Good) ↔ ∀ w ∈ exactLoop net n settled queue', w.Small := by
  induction n generalizing table gs settled queue queue' with
  | zero => simp [trackedLoop, exactLoop]
  | succ n ih =>
      unfold trackedLoop exactLoop
      rw [hq.size]
      split_ifs with hsize
      · simp
      have hpos := Nat.pos_of_ne_zero hsize
      obtain ⟨hcontents, hmin, hvalid'⟩ := hvalid.dequeue (hq.size ▸ hpos)
      obtain ⟨hv, hrest⟩ := hq.dequeue alike_exactCmp hpos
      generalize pqueueDequeue trackedCmp queue = r at hv hrest
      generalize pqueueDequeue exactCmp queue' = r' at hcontents hmin hvalid' hv hrest
      obtain ⟨v, rest⟩ := r
      obtain ⟨v', rest'⟩ := r'
      dsimp only at hcontents hmin hvalid' hv hrest ⊢
      rw [hcontents] at hmin
      have hdistance : v.vertex.distance = v'.distance := hv.good.distance_eq.trans hv.distance_eq
      have hdescs : lsdescs v.vertex.type v.vertex.lsa = lsdescs v'.vertex.type v'.vertex.lsa := by rw [hv.type, hv.lsa]
      by_cases hset : v'.vertex.vertexId ∈ settled
      · rw [if_pos (List.contains_iff_mem.mpr hset)]
        obtain ⟨a, g, hg⟩ := List.exists_cons_of_ne_nil fun hnil => (hs.none_iff _).mp hnil hset
        have hle := hs.ordered _ a (hg ▸ List.mem_cons_self) v' (hcontents ▸ Multiset.mem_cons_self _ _)
        rw [← hv.vertexId] at hg
        obtain ⟨table', hinstall, hkept, hoption, hsame⟩ := hs.kept.merge hostnum hg (hdistance.symm ▸ hle)
        rw [hinstall]
        refine ih ⟨hkept, hs.none_iff, fun p a ha w hw => ?_⟩ hrest hvalid'
        rw [hoption, (hsame a).1]
        exact hs.ordered p a ha w (hcontents ▸ Multiset.mem_cons_of_mem hw)
      · rw [if_neg (List.contains_iff_mem.not.mpr hset)]
        obtain ⟨table', gs', hinstall, hsettles⟩ := hs.install hostnum hv hset hcontents fun x hx =>
          hmin x (Multiset.mem_cons_of_mem hx)
        obtain ⟨hiff, hfound⟩ := searchLinks_matches net hv (lsdescs v'.vertex.type v'.vertex.lsa) hrest
        obtain ⟨hle, hcandidates⟩ := searchLinks_exact net v' (lsdescs v'.vertex.type v'.vertex.lsa)
          hvalid'
        rw [hinstall, hdescs]
        dsimp only
        generalize searchLinks trackedCmp (trackedLink net v) (lsdescs v'.vertex.type v'.vertex.lsa) rest = f
          at hiff hfound
        generalize searchLinks exactCmp (exactLink net v') (lsdescs v'.vertex.type v'.vertex.lsa) rest' = g
          at hiff hfound hle hcandidates
        by_cases hall : ∀ w ∈ f.1, w.Good
        · obtain ⟨a, b, hf, hg⟩ | ⟨q, q', hf, hg, hqq⟩ := hfound hall
          · rw [hf, hg]
            exact hiff
          · rw [hf, hg]
            obtain ⟨hvalidq, hcontentsq⟩ := hcandidates q' hg
            simp only [List.forall_mem_append]
            exact and_congr hiff (ih (hsettles q' g.1 hcontentsq hle) hqq hvalidq)
        · refine iff_of_false (fun h => hall ?_) fun h => hall (hiff.mpr ?_)
          · cases hf : f.2 with
            | error a =>
                rw [hf] at h
                exact h
            | ok q =>
                rw [hf] at h
                exact (List.forall_mem_append.mp h).1
          · cases hg : g.2 with
            | error a =>
                rw [hg] at h
                exact h
            | ok q =>
                rw [hg] at h
                exact (List.forall_mem_append.mp h).1

end Exact

/-! ### Databases in which every link leads to a vertex -/

section Sound

variable {net : Topology} {routerId : UInt32} {e : Tracked} {queue : Pqueue Tracked}

/-- What the search knows of a candidate. -/
def Tracked.view (w : Tracked) : LsaKey × Distance := (w.vertex.lsa.header.key, w.distance)

/-- A candidate for a link. -/
def Tracked.over (e : Tracked) (x : SpfLsa × Nat × Nat) : Tracked :=
  ⟨newVertex (vertexType x.1) x.1, e.cost + x.2.1, e.hops + x.2.2⟩

theorem exactLink_eq (hs : net.Sound) (e : Tracked) (d : Lsdesc) :
    exactLink net e d = .ok ((link net e.vertex d).map e.over) ∧ ∀ x, link net e.vertex d = some x →
      (e.over x).vertex.Made net := by
  unfold exactLink link
  cases hfound : lsdescLsa net d e.vertex with
  | none => exact ⟨rfl, fun x hx => absurd hx (by simp)⟩
  | some lsa =>
      obtain ⟨hlookup, hproper, -⟩ := lsdescLsa_proper hs hfound
      simp only [Option.bind_some]
      by_cases hback : (lsdescs (vertexType lsa) lsa).any (isBacklink lsa d e.vertex) = true
      · rw [if_pos hback, if_pos hback, vertexCreate_eq hproper]
        refine ⟨rfl, fun x hx => ?_⟩
        obtain rfl := Option.some.inj hx
        exact ⟨hproper, hlookup, rfl, rfl⟩
      · rw [if_neg hback, if_neg hback]
        exact ⟨rfl, fun x hx => absurd hx (by simp)⟩

/-- The candidates for the links of a vertex. -/
theorem searchLinks_sound (hs : net.Sound) (l : List Lsdesc) :
    (searchLinks exactCmp (exactLink net e) l queue).1 = (l.filterMap (link net e.vertex)).map e.over ∧
      ∃ q, (searchLinks exactCmp (exactLink net e) l queue).2 = .ok q := by
  induction l generalizing queue with
  | nil => exact ⟨rfl, queue, rfl⟩
  | cons d l ih =>
      unfold searchLinks
      rw [(exactLink_eq hs e d).1]
      cases hlink : link net e.vertex d with
      | none =>
          rw [List.filterMap_cons_none hlink]
          exact ih
      | some x =>
          rw [List.filterMap_cons_some hlink]
          exact ⟨congrArg (e.over x :: ·) ih.1, ih.2⟩

/-- The distances of these candidates are those over the links. -/
theorem map_view_over (he : e.vertex.Made net) :
    ((lsdescs e.vertex.type e.vertex.lsa).filterMap (link net e.vertex)).map (fun x => (e.over x).view) =
      (graph net e.vertex.lsa.header.key).map fun y => (y.1, y.2 e.distance) := by
  have hlinks : links net (newVertex (vertexType e.vertex.lsa) e.vertex.lsa) = links net e.vertex :=
    links_congr he.type.symm rfl
  rw [graph, he.found]
  simp only [hlinks, List.map_map]
  rfl

/-- The prefixes that the search has been to are those of the vertices that are settled. -/
def Visits (net : Topology) (dist : LsaKey → Option Distance) (settled : List (List Bool)) : Prop :=
  ∀ v : Vertex, v.Made net → (v.vertexId ∈ settled ↔ dist v.lsa.header.key ≠ none)

theorem Visits.settle {dist : LsaKey → Option Distance} {settled : List (List Bool)} {v : Vertex}
    (h : Visits net dist settled) (hv : v.Made net) (x : Distance) :
    Visits net (Function.update dist v.lsa.header.key (some x)) (v.vertexId :: settled) := by
  intro u hu
  rw [List.mem_cons]
  by_cases hkey : u.lsa.header.key = v.lsa.header.key
  · obtain ⟨-, hid, hadv⟩ := LsaKey.mk.inj hkey
    have hsame : u.vertexId = v.vertexId := by rw [hu.vertexId, hv.vertexId, hid, hadv]
    rw [hkey, Function.update_self]
    exact iff_of_true (.inl hsame) (Option.some_ne_none _)
  · have hne : u.vertexId ≠ v.vertexId := fun heq =>
      hkey (key_of_vertexId hu.proper hv.proper (by rw [← hu.vertexId, ← hv.vertexId, heq]))
    rw [Function.update_of_ne hkey, ← h u hu]
    exact or_iff_right hne

theorem card_contents (queue : Pqueue Tracked) : queue.contents.card = queue.size := by
  simp [Pqueue.contents]

/-- Without candidates nothing is left to be found. -/
theorem settled_of_empty {dist : LsaKey → Option Distance}
    (h : Search (graph net) (rootKey routerId) (toLex (0, 0)) dist (queue.contents.map Tracked.view))
    (hsize : queue.size = 0) {k : LsaKey} {x : Distance}
    (hk : Least (graph net) (rootKey routerId) (toLex (0, 0)) k x) : dist k ≠ none := by
  rw [Multiset.card_eq_zero.mp ((card_contents queue).trans hsize), Multiset.map_zero] at h
  exact (h.reaches_iff (grows_graph net)).mpr ⟨x, hk.1⟩

/-- Every candidate of the search is found over a link of a vertex at its least distance; and where the search comes to
an end, over every such link there is one. -/
theorem exactLoop_links (hs : net.Sound) {dist : LsaKey → Option Distance} {settled : List (List Bool)} (n : Nat)
    (hvisits : Visits net dist settled) (hvalid : queue.Valid exactCmp Tracked.distance)
    (hmade : ∀ w ∈ queue.contents, w.vertex.Made net)
    (hsearch : Search (graph net) (rootKey routerId) (toLex (0, 0)) dist (queue.contents.map Tracked.view)) :
    (∀ w ∈ exactLoop net n settled queue, ∃ k x, Least (graph net) (rootKey routerId) (toLex (0, 0)) k x ∧
        ∃ y ∈ graph net k, w.distance = y.2 x) ∧
      (queue.size + pending net dist ≤ n → ∀ k x, Least (graph net) (rootKey routerId) (toLex (0, 0)) k x →
        dist k = none → ∀ y ∈ graph net k, ∃ w ∈ exactLoop net n settled queue, w.distance = y.2 x) := by
  induction n generalizing dist settled queue with
  | zero =>
      refine ⟨fun w hw => absurd hw List.not_mem_nil, fun hn k x hk hnone => ?_⟩
      exact absurd hnone (settled_of_empty hsearch (by omega) hk)
  | succ n ih =>
      unfold exactLoop
      split_ifs with hsize
      · refine ⟨fun w hw => absurd hw List.not_mem_nil, fun _ k x hk hnone => ?_⟩
        exact absurd hnone (settled_of_empty hsearch hsize hk)
      obtain ⟨hcontents, hmin, hvalid'⟩ := hvalid.dequeue (Nat.pos_of_ne_zero hsize)
      have hsize' : (pqueueDequeue exactCmp queue).2.size = queue.size - 1 := rfl
      generalize pqueueDequeue exactCmp queue = r at hcontents hmin hvalid' hsize'
      obtain ⟨v, rest⟩ := r
      dsimp only at hcontents hmin hvalid' hsize' ⊢
      rw [hcontents] at hmin hmade hsearch
      rw [Multiset.map_cons] at hsearch
      have hv := hmade v (Multiset.mem_cons_self _ _)
      have hmade' : ∀ w ∈ rest.contents, w.vertex.Made net := fun w hw => hmade w (Multiset.mem_cons_of_mem hw)
      by_cases hset : v.vertex.vertexId ∈ settled
      · rw [if_pos (List.contains_iff_mem.mpr hset)]
        have hdrop := hsearch.drop ((hvisits _ hv).mp hset)
        obtain ⟨hsound, hcomplete⟩ := ih hvisits hvalid' hmade' hdrop
        exact ⟨hsound, fun hn => hcomplete (by omega)⟩
      rw [if_neg (List.contains_iff_mem.not.mpr hset)]
      have hnone : dist v.vertex.lsa.header.key = none := not_not.mp fun hne => hset ((hvisits _ hv).mpr hne)
      have hminview : ∀ x ∈ rest.contents.map Tracked.view, v.distance ≤ x.2 := by
        intro x hx
        obtain ⟨w, hw, rfl⟩ := Multiset.mem_map.mp hx
        exact hmin w (Multiset.mem_cons_of_mem hw)
      have hleast := hsearch.least_of_first (grows_graph net) hminview hnone
      have hsettle := hsearch.settle (grows_graph net) hminview hnone
      have hsound : (searchLinks exactCmp (exactLink net v) (lsdescs v.vertex.type v.vertex.lsa) rest).1 =
          ((lsdescs v.vertex.type v.vertex.lsa).filterMap (link net v.vertex)).map v.over ∧ ∃ q,
            (searchLinks exactCmp (exactLink net v) (lsdescs v.vertex.type v.vertex.lsa) rest).2 = .ok q :=
        searchLinks_sound hs _
      obtain ⟨hfound, q, hq⟩ := hsound
      obtain ⟨hvalidq, hcontentsq⟩ := (searchLinks_exact net v (lsdescs v.vertex.type v.vertex.lsa) hvalid').2 q hq
      rw [hq]
      generalize searchLinks exactCmp (exactLink net v) (lsdescs v.vertex.type v.vertex.lsa) rest = g at hfound hcontentsq
      have hmadeq : ∀ w ∈ q.contents, w.vertex.Made net := by
        intro w hw
        rw [hcontentsq] at hw
        obtain hw | hw := Multiset.mem_add.mp hw
        · exact hmade' w hw
        · rw [hfound] at hw
          obtain ⟨x, hx, rfl⟩ := List.mem_map.mp (Multiset.mem_coe.mp hw)
          obtain ⟨d, -, hd⟩ := List.mem_filterMap.mp hx
          exact (exactLink_eq hs v d).2 x hd
      have hview : g.1.map Tracked.view =
          (graph net v.vertex.lsa.header.key).map fun y => (y.1, y.2 v.distance) := by
        rw [hfound, List.map_map]
        exact map_view_over hv
      have hsearchq : Search (graph net) (rootKey routerId) (toLex (0, 0))
          (Function.update dist v.vertex.lsa.header.key (some v.distance)) (q.contents.map Tracked.view) := by
        rw [hcontentsq, Multiset.map_add, Multiset.map_coe, hview]
        exact hsettle
      have hsizeq : q.size + pending net (Function.update dist v.vertex.lsa.header.key (some v.distance)) ≤
          rest.size + pending net dist := by
        have hpending := pending_update (v := v.vertex) hv.found hnone v.distance
        have hlength := List.length_filterMap_le (link net v.vertex) (lsdescs v.vertex.type v.vertex.lsa)
        have hcard := congrArg Multiset.card hcontentsq
        rw [Multiset.card_add, card_contents, card_contents, Multiset.coe_card, hfound, List.length_map] at hcard
        rw [← hv.type] at hpending
        omega
      obtain ⟨hsoundq, hcomplete⟩ := ih (hvisits.settle hv v.distance) hvalidq hmadeq hsearchq
      constructor
      · intro w hw
        obtain hw | hw := List.mem_append.mp hw
        · have hw' := List.mem_map_of_mem (f := Tracked.view) hw
          rw [hview] at hw'
          obtain ⟨y, hy, heq⟩ := List.mem_map.mp hw'
          exact ⟨_, _, hleast, y, hy, (congrArg Prod.snd heq).symm⟩
        · exact hsoundq w hw
      · intro hn k x hk hknone y hy
        by_cases hkey : k = v.vertex.lsa.header.key
        · subst hkey
          obtain rfl := hk.unique hleast
          have hy' := List.mem_map_of_mem (f := fun y : LsaKey × (Distance → Distance) => (y.1, y.2 v.distance)) hy
          rw [← hview] at hy'
          obtain ⟨w, hw, heq⟩ := List.mem_map.mp hy'
          exact ⟨w, List.mem_append_left _ hw, congrArg Prod.snd heq⟩
        · obtain ⟨w, hw, heq⟩ := hcomplete (by omega) k x hk (by rwa [Function.update_of_ne hkey]) y hy
          exact ⟨w, List.mem_append_right _ hw, heq⟩

end Sound

section Limits

variable {net : Topology} {routerId hostnum : UInt32} {table : SpfTable}

/-- The cost and the hops of every candidate are those of the path it was found on, and `ospf6_vertex_cmp` goes by cost
and hops. -/
structure NeverWraps (net : Topology) (routerId : UInt32) (table : SpfTable) (hostnum : UInt32) : Prop where
  cost : ∀ n, ∀ w ∈ (trackedCalculation n net routerId table hostnum).1, w.vertex.cost.toNat = w.cost
  hops : ∀ n, ∀ w ∈ (trackedCalculation n net routerId table hostnum).1, w.vertex.hops.toNat = w.hops
  compare : ∀ n, ∀ a ∈ (trackedCalculation n net routerId table hostnum).1,
    ∀ b ∈ (trackedCalculation n net routerId table hostnum).1, GoesBy vertexCmp Vertex.distance a.vertex b.vertex

/-- No link out of a vertex leads over the limits from its least distance. -/
def WithinLimits (net : Topology) (routerId : UInt32) : Prop :=
  ∀ k x, Least (graph net) (rootKey routerId) (toLex (0, 0)) k x → ∀ y ∈ graph net k,
    (ofLex (y.2 x)).1 < 2 ^ 31 ∧ (ofLex (y.2 x)).2 < 2 ^ 8

theorem good_root (lsa : SpfLsa) : (trackedRoot lsa).Good := ⟨rfl, rfl, Nat.two_pow_pos 31⟩

theorem small_root (lsa : SpfLsa) : (trackedRoot lsa).Small := ⟨Nat.two_pow_pos 31, Nat.two_pow_pos 8⟩

/-- A cost from `2 ^ 31` on does not compare well with that of the root. -/
theorem near_of_goesBy {root w : Vertex} (hroot : root.cost = 0) (h : GoesBy vertexCmp Vertex.distance w root) :
    w.Near := by
  by_contra hfar
  rw [Vertex.Near, not_lt] at hfar
  have hne : w.cost ≠ root.cost := by
    rintro heq
    rw [heq, hroot] at hfar
    exact absurd hfar (by decide)
  have hneg : vertexCmp w root < 0 := by
    have hlt := w.cost.toNat_lt
    rw [vertexCmp, if_pos hne, hroot, intDiff, UInt32.sub_zero, BitVec.toInt_eq_toNat_cond, UInt32.toNat_toBitVec,
      if_neg (by omega)]
    omega
  have hlt := h.1.mp hneg
  rw [Vertex.distance, Vertex.distance, Prod.Lex.lt_iff, hroot] at hlt
  simp only [ofLex_toLex] at hlt
  have hzero : (0 : UInt32).toNat = 0 := rfl
  omega

/-- Of a candidate with the true numbers that compares well with the root, the cost is near. -/
theorem neverWraps_iff_good : NeverWraps net routerId table hostnum ↔
    ∀ n, ∀ w ∈ (trackedCalculation n net routerId table hostnum).1, w.Good := by
  constructor
  · intro h n w hw
    have hroot : ∃ lsa, trackedRoot lsa ∈ (trackedCalculation n net routerId table hostnum).1 := by
      unfold trackedCalculation at hw ⊢
      split at hw
      · cases hw
      · cases hw
      · next lsa _ _ => exact ⟨lsa, List.mem_cons_self⟩
    obtain ⟨lsa, hlsa⟩ := hroot
    have hnear : w.vertex.Near := near_of_goesBy rfl (h.compare n w hw _ hlsa)
    exact ⟨h.cost n w hw, h.hops n w hw, h.cost n w hw ▸ hnear⟩
  · intro h
    refine ⟨fun n w hw => (h n w hw).cost, fun n w hw => (h n w hw).hops, fun n a ha b hb => ?_⟩
    have hnear : ∀ w ∈ (trackedCalculation n net routerId table hostnum).1, w.vertex.Near := fun w hw => by
      rw [Vertex.Near, (h n w hw).cost]
      exact (h n w hw).near
    exact goesBy_vertexCmp (hnear a ha) (hnear b hb)

/-- Up to so many candidates, the numbers are true where they are small. -/
theorem trackedCalculation_good_iff (ht : Left table) (n : Nat) :
    (∀ w ∈ (trackedCalculation n net routerId table hostnum).1, w.Good) ↔
      ∀ w ∈ exactCandidates n net routerId, w.Small := by
  obtain ⟨gs₀, hgs₀⟩ := ht.kept
  obtain ⟨table₀, hfinish, hkept⟩ := hgs₀.finish
  unfold trackedCalculation exactCandidates
  rw [hfinish]
  cases lookup net.lsdb (rootKey routerId) with
  | none => simp
  | some root =>
      have hmatches : Matches (trackedRoot root) (trackedRoot root) := ⟨rfl, rfl, rfl, rfl, rfl, good_root root⟩
      have hempty : (pqueueCreate : Pqueue Tracked).Related Matches pqueueCreate :=
        ⟨rfl, fun j hj => absurd hj (Nat.not_lt_zero j)⟩
      have hvalid : (pqueueEnqueue exactCmp (trackedRoot root) pqueueCreate).Valid exactCmp Tracked.distance :=
        valid_create.enqueue fun x _ y _ => goesBy_exactCmp x y
      have hsettles : ∀ q, Settles table₀ [] [] q := fun q => ⟨hkept, by simp [groupAt], by simp [groupAt]⟩
      simp only [List.forall_mem_cons]
      exact and_congr (iff_of_true (good_root root) (small_root root))
        (trackedLoop_good_iff (hsettles _) (hempty.enqueue alike_exactCmp hmatches) hvalid n)

/-- Without a Router-LSA of its own a router has no links. -/
theorem graph_of_not_rooted (hroot : lookup net.lsdb (rootKey routerId) = none) {k : LsaKey} {x : Distance}
    (h : Reaches (graph net) (rootKey routerId) (toLex (0, 0)) k x) : graph net k = [] := by
  induction h with
  | root => rw [graph, hroot]
  | step _ he ih =>
      rw [ih] at he
      cases he

/-- The limits of the unlimited calculation, read off the database. -/
theorem small_iff_withinLimits (hs : net.Sound) :
    (∀ n, ∀ w ∈ exactCandidates n net routerId, w.Small) ↔ WithinLimits net routerId := by
  unfold exactCandidates
  cases hroot : lookup net.lsdb (rootKey routerId) with
  | none =>
      refine iff_of_true (fun n w hw => absurd hw List.not_mem_nil) fun k x hk y hy => ?_
      rw [graph_of_not_rooted hroot hk.1] at hy
      cases hy
  | some root =>
      have hkey := (lookup_key hroot).2
      have hproper : root.Proper := by
        simp only [LsaHeader.key, rootKey, LsaKey.mk.injEq] at hkey
        exact .inl ⟨hkey.1, hkey.2.1⟩
      have hmade : (trackedRoot root).vertex.Made net := ⟨hproper, lookup_self hroot, rfl, rfl⟩
      have hvalid : (pqueueEnqueue exactCmp (trackedRoot root) pqueueCreate).Valid exactCmp Tracked.distance :=
        valid_create.enqueue fun x _ y _ => goesBy_exactCmp x y
      have hcontents : (pqueueEnqueue exactCmp (trackedRoot root) pqueueCreate).contents = {trackedRoot root} := by
        rw [contents_enqueue, contents_create]
        rfl
      have hview : (trackedRoot root).view = (rootKey routerId, toLex (0, 0)) := congrArg (·, _) hkey
      have hsearch : Search (graph net) (rootKey routerId) (toLex (0, 0)) (fun _ => none)
          ((pqueueEnqueue exactCmp (trackedRoot root) pqueueCreate).contents.map Tracked.view) := by
        rw [hcontents, Multiset.map_singleton, hview]
        exact search_init
      have hvisits : Visits net (fun _ => none) [] := fun v _ => by simp
      have hlinks := fun n => exactLoop_links hs n hvisits hvalid
        (fun w hw => by rw [hcontents] at hw; exact Multiset.mem_singleton.mp hw ▸ hmade) hsearch
      constructor
      · intro h k x hk y hy
        obtain ⟨w, hw, hdistance⟩ := (hlinks _).2 le_rfl k x hk rfl y hy
        rw [← hdistance]
        exact h _ w (List.mem_cons_of_mem _ hw)
      · intro h n
        refine List.forall_mem_cons.mpr ⟨small_root root, fun w hw => ?_⟩
        obtain ⟨k, x, hk, y, hy, hdistance⟩ := (hlinks n).1 w hw
        have hlimit := h k x hk y hy
        rw [← hdistance] at hlimit
        exact hlimit

theorem neverWraps_iff_small (ht : Left table) :
    NeverWraps net routerId table hostnum ↔ ∀ n, ∀ w ∈ exactCandidates n net routerId, w.Small :=
  neverWraps_iff_good.trans (forall_congr' fun n => trackedCalculation_good_iff ht n)

/-- The numbers of `ospf6_spf_calculation` never wrap exactly where those of a calculation without limits stay below
them; and where every link leads to a vertex, exactly where no link leads over them. -/
theorem neverWraps_iff (ht : Left table) :
    (NeverWraps net routerId table hostnum ↔ ∀ n, ∀ w ∈ exactCandidates n net routerId, w.Small) ∧
      (net.Sound → (NeverWraps net routerId table hostnum ↔ WithinLimits net routerId)) :=
  ⟨neverWraps_iff_small ht, fun hs => (neverWraps_iff_small ht).trans (small_iff_withinLimits hs)⟩

/-- What a link adds to a distance. -/
theorem graph_advance {k : LsaKey} {y : LsaKey × (Distance → Distance)} (h : y ∈ graph net k) :
    ∃ m d, y.2 = advance m d ∧ m < 2 ^ 16 ∧ d ≤ 1 := by
  rw [graph] at h
  split at h
  · cases h
  · obtain ⟨x, hx, rfl⟩ := List.mem_map.mp h
    obtain ⟨d, -, hd⟩ := List.mem_filterMap.mp hx
    refine ⟨_, _, rfl, ?_⟩
    unfold link at hd
    obtain ⟨lsa, -, hlsa⟩ := Option.bind_eq_some_iff.mp hd
    have hmetric := metric_lt d
    split_ifs at hlsa <;> obtain rfl := Option.some.inj hlsa
    · exact ⟨hmetric, Nat.zero_le 1⟩
    · exact ⟨hmetric, le_rfl⟩
    · exact ⟨Nat.two_pow_pos 16, le_rfl⟩

/-- In an area that is not too wide no number wraps. -/
theorem Bounded.withinLimits (hb : Bounded net routerId) : WithinLimits net routerId := by
  intro k x hk y hy
  cases hroot : lookup net.lsdb (rootKey routerId) with
  | none =>
      rw [graph_of_not_rooted hroot hk.1] at hy
      cases hy
  | some root =>
      obtain ⟨-, -, hcost, hhops⟩ := hb.least hroot hk
      obtain ⟨m, d, heq, hm, hd⟩ := graph_advance hy
      rw [heq]
      simp only [advance, ofLex_toLex]
      omega

end Limits

/-- A router with a link of cost 1 to the one before it and one to the one behind it. -/
def chainLsa (i : Nat) : SpfLsa where
  header := ⟨lstypeRouter, 0, UInt32.ofNat i, 1, 0, 56⟩
  bytes j := ([0, 0, 0, 0, 1, 0, 0, 1, 0, 0, 0, 1, 0, 0, 0, 2] ++ htonl (UInt32.ofNat (i - 1)) ++
    [1, 0, 0, 1, 0, 0, 0, 2, 0, 0, 0, 1] ++ htonl (UInt32.ofNat (i + 1))).getD j 0

/-- 257 routers in a row. -/
def chainNet : Topology :=
  ⟨(List.range 257).map fun i => chainLsa (i + 1), fun _ => none⟩

def chainKey (i : Nat) : LsaKey := (chainLsa i).header.key

theorem chainKey_inj {i j : Nat} (hi : i < 2 ^ 32) (hj : j < 2 ^ 32) (h : chainKey i = chainKey j) : i = j := by
  have hadv : UInt32.ofNat i = UInt32.ofNat j := (LsaKey.mk.inj h).2.2
  have hnat := congrArg UInt32.toNat hadv
  rwa [UInt32.toNat_ofNat_of_lt' hi, UInt32.toNat_ofNat_of_lt' hj] at hnat

theorem mem_chainNet {lsa : SpfLsa} : lsa ∈ chainNet.lsdb ↔ ∃ i, 0 < i ∧ i ≤ 257 ∧ lsa = chainLsa i := by
  simp only [chainNet, List.mem_map, List.mem_range]
  constructor
  · rintro ⟨i, hi, rfl⟩
    exact ⟨i + 1, by omega, by omega, rfl⟩
  · rintro ⟨i, hpos, hle, rfl⟩
    exact ⟨i - 1, by omega, by rw [Nat.sub_add_cancel hpos]⟩

theorem lookup_chainNet {i : Nat} (hpos : 0 < i) (hle : i ≤ 257) :
    lookup chainNet.lsdb (chainKey i) = some (chainLsa i) := by
  cases hfound : lookup chainNet.lsdb (chainKey i) with
  | none =>
      have hno := List.find?_eq_none.mp hfound (chainLsa i) (mem_chainNet.mpr ⟨i, hpos, hle, rfl⟩)
      exact absurd (decide_eq_true rfl) hno
  | some lsa =>
      obtain ⟨hmem, hkey⟩ := lookup_key hfound
      obtain ⟨j, -, hj, rfl⟩ := mem_chainNet.mp hmem
      rw [chainKey_inj (by omega) (by omega) hkey]

theorem sound_chainNet : chainNet.Sound where
  type lsa h := by
    obtain ⟨i, -, -, rfl⟩ := mem_chainNet.mp h
    exact (by decide : lstypeRouter ≠ 0)
  network lsa h htype := by
    obtain ⟨i, -, -, rfl⟩ := mem_chainNet.mp h
    exact absurd htype (by decide : lstypeRouter ≠ lstypeNetwork)

theorem lsdescs_chainLsa (i : Nat) : lsdescs .router (chainLsa i) = [⟨chainLsa i, 4⟩, ⟨chainLsa i, 20⟩] := by
  have hsize : (chainLsa i).size = 36 := by
    show (56 : UInt16).toNat - 20 = 36
    decide
  rw [lsdescs, hsize]
  rfl

/-- The two neighbors of a router. -/
theorem nbrRouterId_chainLsa (i : Nat) : (⟨chainLsa i, 4⟩ : Lsdesc).nbrRouterId = UInt32.ofNat (i - 1) ∧
    (⟨chainLsa i, 20⟩ : Lsdesc).nbrRouterId = UInt32.ofNat (i + 1) :=
  ⟨ntohl_htonl _, ntohl_htonl _⟩

def chainVertex (i : Nat) : Vertex := newVertex (vertexType (chainLsa i)) (chainLsa i)

theorem lsdescLsa_chainNet {d : Lsdesc} {i j : Nat} (htype : d.type = pointToPoint)
    (hnbr : d.nbrRouterId = UInt32.ofNat j) : lsdescLsa chainNet d (chainVertex i) =
      lookup chainNet.lsdb (chainKey j) := by
  have hv : (chainVertex i).type ≠ .network := by
    show vertexType (chainLsa i) ≠ .network
    rw [vertexType_router rfl]
    decide
  simp only [lsdescLsa, if_neg hv, if_pos htype, hnbr]
  rfl

/-- Each of the links has a cost of 1. -/
theorem metric_chainLsa (i : Nat) :
    (⟨chainLsa i, 4⟩ : Lsdesc).metric = 1 ∧ (⟨chainLsa i, 20⟩ : Lsdesc).metric = 1 := by
  have hone : UInt32.ofNat ((0 : UInt8).toNat * 2 ^ 8 + (1 : UInt8).toNat) = 1 := by decide
  have hbytes : (chainLsa i).bytes 6 = 0 ∧ (chainLsa i).bytes 7 = 1 ∧ (chainLsa i).bytes 22 = 0 ∧
      (chainLsa i).bytes 23 = 1 := ⟨rfl, rfl, rfl, rfl⟩
  simp only [Lsdesc.metric, hbytes.1, hbytes.2.1, hbytes.2.2.1, hbytes.2.2.2]
  exact ⟨hone, hone⟩

theorem type_chainVertex (i : Nat) : (chainVertex i).type = .router :=
  show vertexType (chainLsa i) = .router from vertexType_router rfl

/-- The links of a router in the chain, all of them at a cost of 1. -/
theorem chain_lsdesc {i : Nat} {d : Lsdesc} (h : d ∈ lsdescs (vertexType (chainLsa i)) (chainLsa i)) :
    ∃ j, j ≤ i + 1 ∧ d.nbrRouterId = UInt32.ofNat j ∧ d.type = pointToPoint ∧ d.metric = 1 := by
  rw [vertexType_router rfl, lsdescs_chainLsa] at h
  obtain rfl | h := List.mem_cons.mp h
  · exact ⟨i - 1, by omega, (nbrRouterId_chainLsa i).1, rfl, (metric_chainLsa i).1⟩
  · obtain rfl := List.mem_singleton.mp h
    exact ⟨i + 1, le_rfl, (nbrRouterId_chainLsa i).2, rfl, (metric_chainLsa i).2⟩

theorem mem_graph_chainNet {i : Nat} (hpos : 0 < i) (hle : i ≤ 257) {y : LsaKey × (Distance → Distance)}
    (h : y ∈ graph chainNet (chainKey i)) :
    ∃ j, 0 < j ∧ j ≤ i + 1 ∧ j ≤ 257 ∧ y.1 = chainKey j ∧ y.2 = advance 1 1 := by
  rw [graph, lookup_chainNet hpos hle] at h
  obtain ⟨x, hx, rfl⟩ := List.mem_map.mp h
  obtain ⟨d, hd, hlink⟩ := List.mem_filterMap.mp hx
  obtain ⟨j, hj, hnbr, htype, hmetric⟩ := chain_lsdesc hd
  obtain ⟨lsa, hlsa, hlink⟩ := Option.bind_eq_some_iff.mp hlink
  have hlookup := (lsdescLsa_chainNet htype hnbr).symm.trans hlsa
  obtain ⟨hmem, hkey⟩ := lookup_key hlookup
  obtain ⟨j', hpos', hle', rfl⟩ := mem_chainNet.mp hmem
  obtain rfl : j' = j := chainKey_inj (by omega) (by omega) hkey
  refine ⟨j', hpos', hj, hle', ?_⟩
  have hv : (newVertex (vertexType (chainLsa i)) (chainLsa i)).type = .router := type_chainVertex i
  have hj' : ¬ vertexType (chainLsa j') = .network := by
    rw [vertexType_router rfl]
    decide
  rw [if_pos hv, hmetric, if_neg hj'] at hlink
  split_ifs at hlink
  obtain rfl := Option.some.inj hlink
  exact ⟨rfl, rfl⟩

/-- A router has a link to the next one. -/
theorem graph_chainNet {i : Nat} (hpos : 0 < i) (hlt : i < 257) :
    (chainKey (i + 1), advance 1 1) ∈ graph chainNet (chainKey i) := by
  have hv : (chainVertex i).type = .router := type_chainVertex i
  have hback : (lsdescs (vertexType (chainLsa (i + 1))) (chainLsa (i + 1))).any
      (isBacklink (chainLsa (i + 1)) ⟨chainLsa i, 20⟩ (chainVertex i)) = true := by
    rw [vertexType_router rfl, lsdescs_chainLsa, List.any_cons]
    refine Bool.or_eq_true_iff.mpr (.inl ?_)
    have hnbr : (⟨chainLsa (i + 1), 4⟩ : Lsdesc).nbrRouterId = UInt32.ofNat i := (nbrRouterId_chainLsa (i + 1)).1
    have hlsa : ¬ ((chainLsa (i + 1)).header.type = lstypeNetwork ∧
        (⟨chainLsa (i + 1), 4⟩ : Lsdesc).routerId = (chainVertex i).lsa.header.advRouter) :=
      fun h => absurd h.1 (by decide : lstypeRouter ≠ lstypeNetwork)
    have hnetwork : ¬ (chainVertex i).type = .network := by
      rw [hv]
      decide
    rw [isBacklink, if_neg hlsa, if_neg fun h => hnetwork h.1, if_neg (not_not_intro ⟨rfl, rfl⟩),
      if_neg (not_not_intro ⟨rfl, rfl⟩), if_neg (not_not_intro ⟨hnbr, (nbrRouterId_chainLsa i).2⟩)]
  have hlink : link chainNet (chainVertex i) ⟨chainLsa i, 20⟩ = some (chainLsa (i + 1), 1, 1) := by
    rw [link, lsdescLsa_chainNet rfl (nbrRouterId_chainLsa i).2, lookup_chainNet (Nat.succ_pos i) hlt, Option.bind_some,
      if_pos hback, if_pos hv, (metric_chainLsa i).2]
    have hnext : ¬ vertexType (chainLsa (i + 1)) = .network := by
      rw [vertexType_router rfl]
      decide
    rw [if_neg hnext]
    rfl
  have hmem : (⟨chainLsa i, 20⟩ : Lsdesc) ∈ lsdescs (chainVertex i).type (chainVertex i).lsa := by
    rw [hv]
    show _ ∈ lsdescs .router (chainLsa i)
    rw [lsdescs_chainLsa]
    exact List.mem_cons_of_mem _ (List.mem_singleton_self _)
  rw [graph, lookup_chainNet hpos hlt.le]
  exact List.mem_map.mpr ⟨_, List.mem_filterMap.mpr ⟨_, hmem, hlink⟩, rfl⟩

/-- The last router but one is 255 hops away. -/
theorem least_chainNet : Least (graph chainNet) (rootKey 1) (toLex (0, 0)) (chainKey 256) (toLex (255, 255)) := by
  have hreach : ∀ i < 256, Reaches (graph chainNet) (rootKey 1) (toLex (0, 0)) (chainKey (i + 1)) (toLex (i, i)) := by
    intro i
    induction i with
    | zero => exact fun _ => .root
    | succ i ih => exact fun hi => (ih (by omega)).step (graph_chainNet (Nat.succ_pos i) (by omega))
  have hfar : ∀ {k x}, Reaches (graph chainNet) (rootKey 1) (toLex (0, 0)) k x →
      ∃ i, 0 < i ∧ i ≤ 257 ∧ k = chainKey i ∧ i ≤ (ofLex x).1 + 1 ∧ i ≤ (ofLex x).2 + 1 := by
    intro k x h
    induction h with
    | root => exact ⟨1, by omega, by omega, rfl, by simp, by simp⟩
    | step _ he ih =>
        obtain ⟨i, hpos, hle, rfl, hcost, hhops⟩ := ih
        obtain ⟨j, hj, hji, hj257, hkey, hadvance⟩ := mem_graph_chainNet hpos hle he
        refine ⟨j, hj, hj257, hkey, ?_, ?_⟩ <;> rw [hadvance] <;> simp only [advance, ofLex_toLex] <;> omega
  refine ⟨hreach 255 (by omega), fun l hl => ?_⟩
  obtain ⟨i, -, hi, hkey, hcost, hhops⟩ := hfar hl
  obtain rfl : 256 = i := chainKey_inj (by omega) (by omega) hkey
  rw [Prod.Lex.le_iff]
  simp only [ofLex_toLex]
  omega

/-- The router at the other end of the chain is 256 hops away, and none by the calculation. -/
theorem not_neverWraps : ¬ NeverWraps chainNet 1 spfTableCreate 0 := by
  rw [neverWraps_iff_small .create, small_iff_withinLimits sound_chainNet]
  intro h
  have hhops := (h _ _ least_chainNet _ (graph_chainNet (i := 256) (by omega) (by omega))).2
  exact absurd hhops (by decide)

theorem neverWraps_iff_two_routers : Left spfTableCreate ∧ NeverWraps sampleNet 1 spfTableCreate 0 := by
  have hsound : sampleNet.Sound := ⟨by simp [sampleNet, sampleLsa, lstypeRouter], by
    simp [sampleNet, sampleLsa, lstypeRouter, lstypeNetwork]⟩
  exact ⟨.create, ((neverWraps_iff .create).2 hsound).mpr sampleNet_bounded.withinLimits⟩

end Harry.Spf
