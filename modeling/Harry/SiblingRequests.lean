import Harry.SiblingConverge

/-! The requests that a DbDesc leads to. Its headers go through `ospf6_dbdesc_recv_slave` one after another; for each
it is said which request it should add, and when it adds just that one. -/

namespace Harry.Sibling

open Harry.Base Harry.Rfp Prog

variable {ρ : Type}

/-- What `ospf6_lsa_compare` finds, by the times at which the two ages are read. -/
def compareAt (a b : Lsa) (t u : Timeval) : Int :=
  if signed b.header.seqnum < signed a.header.seqnum then -1
  else if signed a.header.seqnum < signed b.header.seqnum then 1
  else if b.header.checksum < a.header.checksum then -1
  else if a.header.checksum < b.header.checksum then 0
  else compareAge (a.ageAt t) (b.ageAt u)

/-- What a comparison leaves of the LSAs: only where the ages decide are they brought up to date. -/
def Mem.compared (m : Mem) (a b : Addr) : Mem :=
  if signed (m.lsa a).header.seqnum = signed (m.lsa b).header.seqnum ∧
    (m.lsa a).header.checksum = (m.lsa b).header.checksum then (m.refresh a).refresh b
  else m

section Compare

variable {m : Mem} {a b : Addr}

theorem refreshes_compared (m : Mem) (a b : Addr) : Refreshes m (m.compared a b) := by
  unfold Mem.compared
  split
  · exact .step b (.step a .refl)
  · exact .refl

theorem lsa_refresh_of_ne (h : a ≠ b) : (m.refresh a).lsa b = m.lsa b := by
  show (m.tick.update a _).lsa b = _
  rw [lsa_update, if_neg fun hab => h hab.1]
  rfl

theorem compareAges_run (hne : a ≠ b) (s : State ρ) : compareAges a b s m =
    (compareAge ((m.lsa a).ageAt (m.clock 0)) ((m.lsa b).ageAt (m.clock 1)), s, (m.refresh a).refresh b) := by
  have hrun : compareAges a b s m = (compareAge ((m.lsa a).ageAt (m.clock 0)) (((m.refresh a).lsa b).ageAt (m.clock 1)),
    s, (m.refresh a).refresh b) := rfl
  rw [hrun, lsa_refresh_of_ne hne]

theorem lsaCompare_run (hkey : (m.lsa a).header.key = (m.lsa b).header.key) (hne : a ≠ b) (s : State ρ) :
    lsaCompare a b s m = (compareAt (m.lsa a) (m.lsa b) (m.clock 0) (m.clock 1), s, m.compared a b) := by
  have hassert : (assert ((m.lsa a).header.key == (m.lsa b).header.key) : M ρ Unit) s m = ((), s, m) := by
    rw [hkey, beq_self_eq_true]
    rfl
  have hrun : (lsaCompare a b : M ρ Int) s m =
      (if signed (m.lsa b).header.seqnum < signed (m.lsa a).header.seqnum then pure (-1)
        else if signed (m.lsa a).header.seqnum < signed (m.lsa b).header.seqnum then pure 1
        else if (m.lsa b).header.checksum < (m.lsa a).header.checksum then pure (-1)
        else if (m.lsa a).header.checksum < (m.lsa b).header.checksum then pure 0
        else compareAges a b : M ρ Int)
        ((assert ((m.lsa a).header.key == (m.lsa b).header.key) : M ρ Unit) s m).2.1
        ((assert ((m.lsa a).header.key == (m.lsa b).header.key) : M ρ Unit) s m).2.2 := rfl
  rw [hrun, hassert]
  have hsame : ∀ v : Int, ¬ (signed (m.lsa a).header.seqnum = signed (m.lsa b).header.seqnum ∧
      (m.lsa a).header.checksum = (m.lsa b).header.checksum) → (pure v : M ρ Int) s m = (v, s, m.compared a b) := by
    intro v h
    rw [Mem.compared, if_neg h]
    rfl
  unfold compareAt
  split_ifs with h1 h2 h3 h4
  · exact hsame _ fun h => by omega
  · exact hsame _ fun h => by omega
  · exact hsame _ fun h => UInt16.lt_irrefl _ (h.2 ▸ h3)
  · exact hsame _ fun h => UInt16.lt_irrefl _ (h.2 ▸ h4)
  · have heq : signed (m.lsa a).header.seqnum = signed (m.lsa b).header.seqnum ∧
        (m.lsa a).header.checksum = (m.lsa b).header.checksum :=
      ⟨by omega, UInt16.le_antisymm (UInt16.not_lt.mp h3) (UInt16.not_lt.mp h4)⟩
    rw [Mem.compared, if_pos heq]
    exact compareAges_run hne s

end Compare

section Lists

variable {s : State ρ} {m : Mem} {on : NbrRef} {n : Neighbor} {list : NbrList}

/-- The neighbor that a pointer stands for is there. -/
def State.Holds (s : State ρ) (on : NbrRef) (n : Neighbor) : Prop :=
  s.interfaces[on.oi]?.bind (·.neighborLookup on.routerId) = some n

theorem neighborAt_eq (s : State ρ) (on : NbrRef) :
    s.neighborAt on = (s.interfaces[on.oi]?.bind (·.neighborLookup on.routerId)).getD default := by
  unfold State.neighborAt State.interfaceAt
  rw [List.getD_eq_getElem?_getD]
  cases s.interfaces[on.oi]? with
  | none => rfl
  | some i => rfl

theorem State.Holds.neighborAt_eq (h : s.Holds on n) : s.neighborAt on = n := by
  rw [Sibling.neighborAt_eq, h, Option.getD_some]

theorem theNeighbor_run (h : s.Holds on n) (m : Mem) : (theNeighbor on : M ρ Neighbor) s m = (n, s, m) := by
  unfold State.Holds at h
  simp only [theNeighbor, bind, observe, h]
  rfl

/-- A neighbor that is looked up after a change. -/
theorem lookup_modifyNeighbor (on : NbrRef) {f : Neighbor → Neighbor} (hid : ∀ n, (f n).routerId = n.routerId)
    (s : State ρ) (m : Mem) :
    ((modifyNeighbor on f : M ρ Unit) s m).2.1.interfaces[on.oi]?.bind (·.neighborLookup on.routerId) =
      (s.interfaces[on.oi]?.bind (·.neighborLookup on.routerId)).map f := by
  show (s.interfaces.modify on.oi _)[on.oi]?.bind _ = _
  rw [List.getElem?_modify_eq]
  cases s.interfaces[on.oi]? with
  | none => rfl
  | some i => exact find?_routerId_map hid i.neighborList on.routerId

/-- A neighbor that is changed is there, changed. -/
theorem modifyNeighbor_run {f : Neighbor → Neighbor} (hid : ∀ n, (f n).routerId = n.routerId) (h : s.Holds on n)
    (m : Mem) : ∃ q, (modifyNeighbor on f : M ρ Unit) s m = ((), q, m) ∧ q.Holds on (f n) ∧ q.fault = s.fault ∧
      q.databases = s.databases := by
  refine ⟨_, rfl, ?_, rfl, ((quiet_modifyNeighbor on f : Within Quiet (_ : M ρ Unit)) s m).databases⟩
  exact (lookup_modifyNeighbor on hid s m).trans (congrArg (Option.map f) h)

theorem get_neighbor (h : s.Holds on n) (list : NbrList) : (Lsdb.neighbor on list).get s = n.list list := by
  rw [← h.neighborAt_eq]
  rfl

theorem list_setList (n : Neighbor) (as : List Addr) (list : NbrList) : (n.setList as list).list list = as := by
  cases list <;> rfl

theorem put_run (as : List Addr) (list : NbrList) (h : s.Holds on n) (m : Mem) :
    ∃ q, ((Lsdb.neighbor on list).put as : M ρ Unit) s m = ((), q, m) ∧ q.Holds on (n.setList as list) ∧
      q.fault = s.fault ∧ q.databases = s.databases :=
  modifyNeighbor_run (fun n => by cases list <;> rfl) h m

variable [RouteCalc ρ] {a : Addr}

/-- An LSA is added to a list of a neighbor; it may be that it clashes with the one it takes the place of. -/
theorem lsdbAdd_run (a : Addr) (list : NbrList) (h : s.Holds on n) (m : Mem) :
    ∃ q m', lsdbAdd a (.neighbor on list) s m = ((), q, m') ∧ Refreshes m m' ∧ q.databases = s.databases ∧
      q.Holds on (n.setList (insertLsa m.key a (n.list list)).1 list) ∧
      q.fault = (s.fault || (insertLsa m.key a (n.list list)).2.any fun old => clash m old a) := by
  have hobserve : (Prog.observe : M ρ (State ρ)) s m = (s, s, m) := rfl
  have hkeys : (keys : M ρ (Addr → Option LsaKey)) s m = (m.key, s, m) := rfl
  obtain ⟨q, hput, hholds, hfault, hdbs⟩ := put_run (insertLsa m.key a (n.list list)).1 list h m
  unfold lsdbAdd
  rw [Prog.run_bind hobserve, Prog.run_bind hkeys, get_neighbor h, Prog.run_bind hput]
  cases (insertLsa m.key a (n.list list)).2 with
  | none =>
      refine ⟨q, m.refresh a, ?_, .step a .refl, hdbs, hholds, by rw [hfault, Option.any_none, Bool.or_false]⟩
      show hookInsert (.neighbor on list) a q m = _
      rw [hookInsert_list rfl]
      rfl
  | some old =>
      obtain ⟨m', href, hrun⟩ := hookReplace_run (show (Lsdb.neighbor on list).isList = true from rfl) old a q m
      refine ⟨_, m', hrun, href, ?_, ?_, ?_⟩
      · split
        · exact hdbs
        · exact hdbs
      · split
        · exact hholds
        · exact hholds
      · rw [Option.any_some]
        split
        · next hc => rw [hc, Bool.or_true]
        · next hc => rw [Bool.eq_false_iff.mpr hc, Bool.or_false, hfault]

end Lists

section Headers

variable {on : NbrRef} {frame : List UInt8} {off : Nat} {x y : State ρ × Mem}

/-- The entry for a key on the list of requests to a neighbor. -/
def requestOf (x : State ρ × Mem) (on : NbrRef) (k : LsaKey) : Option LsaHeader :=
  (copyOf x (.neighbor on .requestList) k).map fun a => (x.2.lsa a).header

/-- The LSA that `ospf6_lsa_create_headeronly` makes of a header at a time. -/
def headerLsa (frame : List UInt8) (off : Nat) (t : Timeval) : Lsa :=
  .born (.ofHeader (lsaHeaderAt frame off) [] true) (u16At frame off) t

/-- Whether a database copy is less recent than a header that is read now. -/
def LessRecent (frame : List UInt8) (off : Nat) (m : Mem) (a : Addr) : Prop :=
  compareAt (headerLsa frame off (m.clock 0)) (m.lsa a) (m.clock 1) (m.clock 2) < 0

/-- The database of the scope of a header has no copy of the LSA or a less recent one. -/
def Needed (on : NbrRef) (frame : List UInt8) (off : Nat) (x : State ρ × Mem) : Prop :=
  ∃ d, x.1.lsdbFor on (lsaHeaderAt frame off).type = some d ∧
    ∀ a ∈ copyOf x d (lsaHeaderAt frame off).key, LessRecent frame off x.2 a

/-- A header becomes a request where it is needed and nothing else does. -/
def HeaderExact [RouteCalc ρ] (on : NbrRef) (frame : List UInt8) (off : Nat) (x : State ρ × Mem) : Prop :=
  let header := lsaHeaderAt frame off
  let y := (dbdescHeaderRecv on frame off x.1 x.2).2
  y.1.fault = false ∧
    (Needed on frame off x → ∀ k, requestOf y on k = if k = header.key then some header else requestOf x on k) ∧
    (¬ Needed on frame off x → ∀ k, requestOf y on k = requestOf x on k)

/-- The database copy that a header is compared with. -/
def dbdescCopy (on : NbrRef) (frame : List UInt8) (off : Nat) (x : State ρ × Mem) : Option Addr :=
  match lsaScope (lsaHeaderAt frame off).type with
  | .linklocal => copyOf x (.interface on.oi) (lsaHeaderAt frame off).key
  | .as => copyOf x .as (lsaHeaderAt frame off).key
  | _ => none

/-- The LSAs once a header has been compared. -/
def headerMem (on : NbrRef) (frame : List UInt8) (off : Nat) (x : State ρ × Mem) : Mem :=
  let m := x.2.tick.push (headerLsa frame off (x.2.clock 0))
  match dbdescCopy on frame off x with
  | none => m
  | some mine => m.compared x.2.heap.length mine

/-- A request that one for a header takes the place of. -/
def replacedBy (on : NbrRef) (frame : List UInt8) (off : Nat) (x : State ρ × Mem) : Option Addr :=
  (insertLsa (headerMem on frame off x).key x.2.heap.length ((Lsdb.neighbor on .requestList).get x.1)).2

/-- When a header becomes a request just where it is needed: it is not of reserved scope; if it is of area scope, the
area has no copy that is as recent, or there is the same request already; and it does not clash with a request that it
takes the place of. -/
def HeaderFine (on : NbrRef) (frame : List UInt8) (off : Nat) (x : State ρ × Mem) : Prop :=
  let header := lsaHeaderAt frame off
  lsaScope header.type ≠ .reserved ∧
    (lsaScope header.type = .area → Needed on frame off x ∨ requestOf x on header.key = some header) ∧
    (Needed on frame off x ∨ lsaScope header.type = .area →
      ∀ old ∈ replacedBy on frame off x, clash (headerMem on frame off x) old x.2.heap.length = false)

/-- The neighbor is there, and what is in the databases and on the list of requests is on the heap. -/
structure Sound (on : NbrRef) (x : State ρ × Mem) : Prop where
  fault : x.1.fault = false
  holds : ∃ n, x.1.Holds on n
  valid : Valid x
  requests : ∀ a ∈ (Lsdb.neighbor on .requestList).get x.1, a < x.2.heap.length

theorem Quiet.of_refreshes {s q : State ρ} {m m' : Mem} (hdbs : q.databases = s.databases) (h : Refreshes m m') :
    Quiet (s, m) (q, m') := by
  have hmem : Quiet (s, m) (s, m') := by
    induction h with
    | refl => exact Frame.refl _
    | step a _ ih => exact Frame.trans ih (quiet_ageCurrent a s _)
  exact ⟨hdbs, hmem.length, hmem.core, hmem.clock⟩

theorem Refreshes.info_eq {m m' : Mem} (h : Refreshes m m') (a : Addr) :
    (m'.lsa a).toLsaInfo = (m.lsa a).toLsaInfo := by
  induction h with
  | refl => rfl
  | step b _ ih => exact (info_refresh _ b a).trans ih

theorem quiet_push_tick (x : State ρ × Mem) (l : Lsa) : Quiet x (x.1, x.2.tick.push l) :=
  Frame.trans (quiet_gettime x.1 x.2) (quiet_push (fun _ => l) x.1 x.2.tick)

theorem quiet_headerMem (on : NbrRef) (frame : List UInt8) (off : Nat) (x : State ρ × Mem) :
    Quiet x (x.1, headerMem on frame off x) := by
  have hpush := quiet_push_tick x (headerLsa frame off (x.2.clock 0))
  unfold headerMem
  cases dbdescCopy on frame off x with
  | none => exact hpush
  | some mine => exact Frame.trans hpush (.of_refreshes rfl (refreshes_compared _ _ _))

/-- The header is at the next address. -/
theorem headerMem_self (on : NbrRef) (frame : List UInt8) (off : Nat) (x : State ρ × Mem) :
    x.2.heap.length < (headerMem on frame off x).heap.length ∧
      ((headerMem on frame off x).lsa x.2.heap.length).header = lsaHeaderAt frame off := by
  have hlt : x.2.heap.length < (x.2.tick.push (headerLsa frame off (x.2.clock 0))).heap.length := by
    simp [Mem.push, Mem.tick]
  have hself : (x.2.tick.push (headerLsa frame off (x.2.clock 0))).lsa x.2.heap.length =
      headerLsa frame off (x.2.clock 0) := (lsa_push _ _ _).trans (if_pos rfl)
  unfold headerMem
  cases dbdescCopy on frame off x with
  | none => exact ⟨hlt, by rw [hself]; rfl⟩
  | some mine =>
      have href := refreshes_compared (x.2.tick.push (headerLsa frame off (x.2.clock 0))) x.2.heap.length mine
      refine ⟨hlt.trans_le (Quiet.of_refreshes (s := x.1) rfl href).length, ?_⟩
      rw [congrArg LsaInfo.header (href.info_eq x.2.heap.length), hself]
      rfl

theorem headerMem_key (on : NbrRef) (frame : List UInt8) (off : Nat) (x : State ρ × Mem) :
    (headerMem on frame off x).key x.2.heap.length = some (lsaHeaderAt frame off).key := by
  obtain ⟨hlt, hheader⟩ := headerMem_self on frame off x
  rw [Mem.key, if_pos hlt, hheader]

/-- Requests stay what they are as long as the list is left alone. -/
theorem Quiet.requestOf (h : Quiet x y) (hx : Sound on x)
    (hlist : (Lsdb.neighbor on .requestList).get y.1 = (Lsdb.neighbor on .requestList).get x.1) (k : LsaKey) :
    Sibling.requestOf y on k = Sibling.requestOf x on k := by
  have hcopy : Sibling.copyOf y (.neighbor on .requestList) k = Sibling.copyOf x (.neighbor on .requestList) k := by
    rw [Sibling.copyOf, Sibling.copyOf, hlist]
    exact find?_congr fun a ha => by rw [h.key (hx.requests a ha)]
  unfold Sibling.requestOf
  rw [hcopy]
  cases hfound : Sibling.copyOf x (.neighbor on .requestList) k with
  | none => rfl
  | some a =>
      exact congrArg some (h.header (hx.requests a (List.mem_of_find?_eq_some hfound)))

theorem Quiet.sound (h : Quiet x y) (hx : Sound on x) (hfault : y.1.fault = false) (hholds : ∃ n, y.1.Holds on n)
    (hlist : ∀ a ∈ (Lsdb.neighbor on .requestList).get y.1,
      a ∈ (Lsdb.neighbor on .requestList).get x.1 ∨ a = x.2.heap.length ∧ a < y.2.heap.length) : Sound on y where
  fault := hfault
  holds := hholds
  valid := h.valid hx.valid
  requests a ha := (hlist a ha).elim (fun ha => (hx.requests a ha).trans_le h.length) And.right

variable [RouteCalc ρ]

/-- Whether `ospf6_dbdesc_recv_slave` makes a request of a header. -/
def Asked (on : NbrRef) (frame : List UInt8) (off : Nat) (x : State ρ × Mem) : Prop :=
  ∀ a ∈ dbdescCopy on frame off x, LessRecent frame off x.2 a

omit [RouteCalc ρ] in
theorem dbdescLookup_run (hx : Sound on x) (hscope : lsaScope (lsaHeaderAt frame off).type ≠ .reserved) (l : Lsa) :
    (dbdescLsdb on (lsaHeaderAt frame off).type >>= lsdbLookup (lsaHeaderAt frame off).key : M ρ (Option Addr))
      x.1 (x.2.tick.push l) = (dbdescCopy on frame off x, x.1, x.2.tick.push l) := by
  have hlook : ∀ d : Lsdb, d.Scoped → (lsdbLookup (lsaHeaderAt frame off).key (some d) : M ρ (Option Addr)) x.1
      (x.2.tick.push l) = (copyOf x d (lsaHeaderAt frame off).key, x.1, x.2.tick.push l) := by
    intro d hd
    rw [← (quiet_push_tick x l).copyOf hx.valid hd]
    rfl
  unfold dbdescLsdb dbdescCopy
  cases hs : lsaScope (lsaHeaderAt frame off).type with
  | linklocal => exact hlook (.interface on.oi) trivial
  | area => rfl
  | as => exact hlook .as trivial
  | reserved => exact absurd hs hscope

omit [RouteCalc ρ] in
theorem mem_of_dbdescCopy {a : Addr} (hx : Sound on x) (h : dbdescCopy on frame off x = some a) :
    a < x.2.heap.length ∧ (x.2.lsa a).header.key = (lsaHeaderAt frame off).key := by
  have hof : ∀ d : Lsdb, d.Scoped → copyOf x d (lsaHeaderAt frame off).key = some a →
      a < x.2.heap.length ∧ (x.2.lsa a).header.key = (lsaHeaderAt frame off).key := fun d hd h =>
    ⟨hx.valid d hd a (List.mem_of_find?_eq_some h), header_of_key (by simpa using List.find?_some h)⟩
  unfold dbdescCopy at h
  split at h
  · exact hof (.interface on.oi) trivial h
  · exact hof .as trivial h
  · exact absurd h (by simp)

/-- One header of a DbDesc, but of reserved scope: it is compared, and added if it has to be asked for. -/
theorem dbdescHeaderRecv_run (hx : Sound on x) (hscope : lsaScope (lsaHeaderAt frame off).type ≠ .reserved) :
    (Asked on frame off x → dbdescHeaderRecv on frame off x.1 x.2 =
      (lsdbAdd x.2.heap.length (.neighbor on .requestList) : M ρ Unit) x.1 (headerMem on frame off x)) ∧
    (¬ Asked on frame off x → dbdescHeaderRecv on frame off x.1 x.2 = ((), x.1, headerMem on frame off x)) := by
  have hlook := dbdescLookup_run hx hscope (headerLsa frame off (x.2.clock 0))
  have hcreated : dbdescHeaderRecv on frame off x.1 x.2 =
      ((dbdescLsdb on (lsaHeaderAt frame off).type >>= lsdbLookup (lsaHeaderAt frame off).key) >>= fun mine =>
        match mine with
        | none => lsdbAdd x.2.heap.length (.neighbor on .requestList)
        | some mine => do
            let c ← lsaCompare x.2.heap.length mine
            if c < 0 then lsdbAdd x.2.heap.length (.neighbor on .requestList) else pure () : M ρ Unit)
        x.1 (x.2.tick.push (headerLsa frame off (x.2.clock 0))) := rfl
  rw [hcreated, Prog.run_bind hlook]
  unfold Asked headerMem
  cases hcopy : dbdescCopy on frame off x with
  | none => exact ⟨fun _ => rfl, fun h => absurd (by simp) h⟩
  | some mine =>
      obtain ⟨hmine, hkey⟩ := mem_of_dbdescCopy hx hcopy
      have hself : (x.2.tick.push (headerLsa frame off (x.2.clock 0))).lsa x.2.heap.length =
          headerLsa frame off (x.2.clock 0) := (lsa_push _ _ _).trans (if_pos rfl)
      have hold : (x.2.tick.push (headerLsa frame off (x.2.clock 0))).lsa mine = x.2.lsa mine :=
        (lsa_push _ _ _).trans (if_neg hmine.ne)
      have hcompare := lsaCompare_run (m := x.2.tick.push (headerLsa frame off (x.2.clock 0)))
        (a := x.2.heap.length) (b := mine) (by rw [hself, hold, hkey]; rfl) hmine.ne' x.1
      rw [hself, hold] at hcompare
      have hless : LessRecent frame off x.2 mine ↔ compareAt (headerLsa frame off (x.2.clock 0)) (x.2.lsa mine)
          ((x.2.tick.push (headerLsa frame off (x.2.clock 0))).clock 0)
          ((x.2.tick.push (headerLsa frame off (x.2.clock 0))).clock 1) < 0 := Iff.rfl
      dsimp only
      rw [Prog.run_bind hcompare]
      refine ⟨fun h => ?_, fun h => ?_⟩
      · rw [if_pos (hless.mp (h mine rfl))]
      · rw [if_neg fun hlt => h fun a ha => Option.some.inj ha ▸ hless.mpr hlt]
        rfl

/-- The header is added to the requests. -/
theorem request_added (frame : List UInt8) (off : Nat) (hx : Sound on x) : ∃ y : State ρ × Mem,
    (lsdbAdd x.2.heap.length (.neighbor on .requestList) : M ρ Unit) x.1 (headerMem on frame off x) = ((), y) ∧
      y.1.fault = (replacedBy on frame off x).any (fun old => clash (headerMem on frame off x) old x.2.heap.length) ∧
      (∀ k, requestOf y on k =
        if k = (lsaHeaderAt frame off).key then some (lsaHeaderAt frame off) else requestOf x on k) ∧
      (y.1.fault = false → Sound on y) := by
  obtain ⟨n, hn⟩ := hx.holds
  obtain ⟨hlt, hheader⟩ := headerMem_self on frame off x
  have hquiet := quiet_headerMem on frame off x
  have hlist := get_neighbor hn .requestList
  obtain ⟨q, m', hrun, href, hdbs, hholds, hfault⟩ :=
    lsdbAdd_run x.2.heap.length .requestList hn (headerMem on frame off x)
  have hlist' : (Lsdb.neighbor on .requestList).get q =
      (insertLsa (headerMem on frame off x).key x.2.heap.length ((Lsdb.neighbor on .requestList).get x.1)).1 := by
    rw [get_neighbor hholds, list_setList, hlist]
  have hq : Quiet (x.1, headerMem on frame off x) (q, m') := .of_refreshes hdbs href
  have hall : Quiet x (q, m') := Frame.trans hquiet hq
  refine ⟨(q, m'), hrun, ?_, fun k => ?_, fun hok => hall.sound hx hok ⟨_, hholds⟩ fun a ha => ?_⟩
  · rw [hfault, hx.fault, Bool.false_or, replacedBy, hlist]
  · -- the entries of the list have their keys still
    have hkey : ∀ a ∈ (Lsdb.neighbor on .requestList).get q, m'.key a = (headerMem on frame off x).key a := by
      intro a ha
      rw [hlist'] at ha
      obtain rfl | ha := mem_insertLsa ha
      · exact hq.key hlt
      · exact hq.key ((hx.requests a ha).trans_le hquiet.length)
    have hcopy : copyOf (q, m') (.neighbor on .requestList) k =
        if (lsaHeaderAt frame off).key = k then some x.2.heap.length else copyOf x (.neighbor on .requestList) k := by
      rw [copyOf, find?_congr fun a ha => by rw [hkey a ha], hlist',
        find?_insertLsa (headerMem_key on frame off x)]
      refine if_congr Iff.rfl rfl (find?_congr fun a ha => ?_)
      rw [hquiet.key (hx.requests a ha)]
    unfold requestOf
    rw [hcopy]
    by_cases hk : k = (lsaHeaderAt frame off).key
    · rw [if_pos hk.symm, if_pos hk, Option.map_some, hq.header hlt, hheader]
    · rw [if_neg fun h => hk h.symm, if_neg hk]
      cases hfound : copyOf x (.neighbor on .requestList) k with
      | none => rfl
      | some a => exact congrArg some (hall.header (hx.requests a (List.mem_of_find?_eq_some hfound)))
  · rw [hlist'] at ha
    obtain rfl | ha := mem_insertLsa ha
    · exact .inr ⟨rfl, hlt.trans_le hq.length⟩
    · exact .inl ha

omit [RouteCalc ρ] in
theorem Needed.asked (h : Needed on frame off x) : Asked on frame off x := by
  obtain ⟨d, hd, hall⟩ := h
  unfold State.lsdbFor at hd
  unfold Asked dbdescCopy
  cases hs : lsaScope (lsaHeaderAt frame off).type with
  | linklocal =>
      rw [hs, Option.some.injEq] at hd
      exact hd ▸ hall
  | as =>
      rw [hs, Option.some.injEq] at hd
      exact hd ▸ hall
  | area => exact fun a ha => absurd ha (by simp)
  | reserved => exact fun a ha => absurd ha (by simp)

omit [RouteCalc ρ] in
/-- Where a header is asked for though it is not needed, its scope is that of the area. -/
theorem Asked.needed (h : Asked on frame off x) (hscope : lsaScope (lsaHeaderAt frame off).type ≠ .reserved) :
    Needed on frame off x ∨ lsaScope (lsaHeaderAt frame off).type = .area := by
  unfold Asked dbdescCopy at h
  unfold Needed State.lsdbFor
  cases hs : lsaScope (lsaHeaderAt frame off).type with
  | linklocal =>
      rw [hs] at h
      exact .inl ⟨_, rfl, h⟩
  | as =>
      rw [hs] at h
      exact .inl ⟨_, rfl, h⟩
  | area => exact .inr rfl
  | reserved => exact absurd hs hscope

omit [RouteCalc ρ] in
theorem asked_of_area (h : lsaScope (lsaHeaderAt frame off).type = .area) : Asked on frame off x := by
  unfold Asked dbdescCopy
  rw [h]
  exact fun a ha => absurd ha (by simp)

/-- A header of reserved scope is used after it has been freed. -/
theorem fault_of_reserved (hx : Sound on x) (hscope : lsaScope (lsaHeaderAt frame off).type = .reserved) :
    (dbdescHeaderRecv on frame off x.1 x.2).2.1.fault = true := by
  obtain ⟨n, hn⟩ := hx.holds
  have hrun : dbdescHeaderRecv on frame off x.1 x.2 = (lsdbAdd x.2.heap.length (.neighbor on .requestList) : M ρ Unit)
      { x.1 with fault := true } (x.2.tick.push (headerLsa frame off (x.2.clock 0))) := by
    unfold dbdescHeaderRecv dbdescLsdb
    rw [hscope]
    rfl
  obtain ⟨q, m', hadd, -, -, -, hfault⟩ := lsdbAdd_run (s := { x.1 with fault := true }) x.2.heap.length .requestList hn
    (x.2.tick.push (headerLsa frame off (x.2.clock 0)))
  rw [hrun, hadd, hfault, Bool.true_or]

/-- One header: it becomes a request just where it is needed if and only if it is a fine one. -/
theorem headerExact_iff (hx : Sound on x) : HeaderExact on frame off x ↔ HeaderFine on frame off x := by
  by_cases hscope : lsaScope (lsaHeaderAt frame off).type = .reserved
  · refine ⟨fun h => ?_, fun h => absurd hscope h.1⟩
    have hfault := h.1
    rw [fault_of_reserved hx hscope] at hfault
    cases hfault
  · obtain ⟨hasked, hnot⟩ := dbdescHeaderRecv_run hx hscope
    by_cases h : Asked on frame off x
    · obtain ⟨y, hadd, hfault, hrequests, -⟩ := request_added frame off hx
      unfold HeaderExact HeaderFine
      rw [hasked h, hadd]
      have hclash : y.1.fault = false ↔
          ∀ old ∈ replacedBy on frame off x, clash (headerMem on frame off x) old x.2.heap.length = false := by
        rw [hfault]
        cases replacedBy on frame off x <;> simp
      have hself := hrequests (lsaHeaderAt frame off).key
      rw [if_pos rfl] at hself
      refine ⟨fun ⟨hok, _, hneedless⟩ => ⟨hscope, fun _ => ?_, fun _ => hclash.mp hok⟩, fun ⟨_, harea, hfine⟩ => ?_⟩
      · by_cases hneed : Needed on frame off x
        · exact .inl hneed
        · exact .inr ((hneedless hneed _).symm.trans hself)
      · refine ⟨hclash.mpr (hfine (h.needed hscope)), fun _ => hrequests, fun hneed k => ?_⟩
        obtain hsame := (harea ((h.needed hscope).resolve_left hneed)).resolve_left hneed
        by_cases hk : k = (lsaHeaderAt frame off).key
        · rw [hk, hsame]
          exact hself
        · exact (hrequests k).trans (if_neg hk)
    · unfold HeaderExact HeaderFine
      rw [hnot h]
      have hneed : ¬ Needed on frame off x := fun hneed => h hneed.asked
      have harea : lsaScope (lsaHeaderAt frame off).type ≠ .area := fun harea => h (asked_of_area harea)
      refine ⟨fun _ => ⟨hscope, fun ha => absurd ha harea, fun ha => ?_⟩, fun _ => ?_⟩
      · exact ha.elim (fun hn => absurd hn hneed) fun ha => absurd ha harea
      · exact ⟨hx.fault, fun hn => absurd hn hneed, fun _ => (quiet_headerMem on frame off x).requestOf hx rfl⟩

/-- The next header is met in a sound state. -/
theorem HeaderFine.sound (h : HeaderFine on frame off x) (hx : Sound on x) :
    Sound on (dbdescHeaderRecv on frame off x.1 x.2).2 := by
  have hexact := (headerExact_iff hx).mpr h
  obtain ⟨hasked, hnot⟩ := dbdescHeaderRecv_run hx h.1
  by_cases ha : Asked on frame off x
  · obtain ⟨y, hadd, -, -, hsound⟩ := request_added frame off hx
    have hok := hexact.1
    rw [hasked ha, hadd] at hok ⊢
    exact hsound hok
  · rw [hnot ha]
    exact (quiet_headerMem on frame off x).sound hx hx.fault hx.holds fun a ha => .inl ha

end Headers

/-! ### What leaves the requests alone -/

section Leaves

variable {on : NbrRef} {s : State ρ} {m : Mem}

/-- The list of requests, as a view of the neighbor. -/
abbrev State.requests (on : NbrRef) (s : State ρ) : List Addr := State.view (fun _ n => n.requestList) on s

theorem leaves_modifyInterface {β : Type} {g : UInt32 → Neighbor → β} (oi : Nat) {f : Interface → Interface}
    (hf : ∀ i, (f i).neighborList = i.neighborList) (hmtu : ∀ i, (f i).ifmtu = i.ifmtu) :
    Leaves (State.view g on) (modifyInterface oi f : M ρ Unit) := by
  refine .modify fun s => ?_
  unfold State.view State.neighborAt State.interfaceAt
  rw [List.getD_eq_getElem?_getD, List.getD_eq_getElem?_getD, List.getElem?_modify]
  by_cases h : oi = on.oi
  · cases hi : s.interfaces[on.oi]? with
    | none => simp
    | some i => simp [h, hf, hmtu, Interface.neighborLookup]
  · simp [h]

theorem leaves_hostnumOf {β : Type} {g : UInt32 → Neighbor → β} (i : Interface) :
    Leaves (State.view g on) (hostnumOf i : M ρ UInt32) := by
  refine .bind .observe fun s => ?_
  cases s.ctrlClients[i.ctrlClient]? with
  | none => exact .bind leaves_fail fun _ => .pure _
  | some c => exact .pure _

theorem leaves_theArea {β : Type} {g : UInt32 → Neighbor → β} (oa : Nat) :
    Leaves (State.view g on) (theArea oa : M ρ Area) := by
  refine .bind .observe fun s => ?_
  cases s.areaList[oa]? with
  | none => exact .bind leaves_fail fun _ => .pure _
  | some a => exact .pure a

theorem leaves_neighborStateChange (nextState : NeighborState) :
    Leaves (State.requests on) (neighborStateChange nextState on : M ρ Unit) := by
  refine .bind (leaves_theNeighbor on) fun n => .bind (leaves_modifyNeighbor (fun _ => rfl) fun _ _ => rfl) fun _ => ?_
  refine .ite (.pure _) (.ite ?_ (.pure _))
  refine .bind (leaves_theInterface on.oi) fun i => .bind (leaves_hostnumOf i) fun hostnum => .bind ?_ fun _ => ?_
  · exact .bind (leaves_theArea _) fun a => .ite (.pure _) (.bind (.modify fun _ => rfl) fun _ => .modify fun _ => rfl)
  · refine .ite (.bind (leaves_theInterface on.oi) fun i => .ite (.pure _) ?_) (.pure _)
    exact .bind (.modify fun _ => rfl) fun _ => leaves_modifyInterface _ (fun _ => rfl) fun _ => rfl

theorem leaves_clearRetransList : Leaves (State.requests on) (clearRetransList on : M ρ Unit) := by
  refine .bind (leaves_lsdbList _) fun as => .forM fun a _ => .bind ?_ fun _ => leaves_lsdbRemove (fun _ _ _ => rfl) a
  exact .bind (.bind (.hidden _) fun _ => .pure _) fun _ => (Leaves.pure () : Leaves _ (pure () : M ρ Unit))

theorem leaves_rescheduleDbdesc (t : Thread) : Leaves (State.requests on) (rescheduleDbdesc on t : M ρ Unit) := by
  refine .bind (leaves_theNeighbor on) fun n => .bind ?_ fun _ => .bind (.modify fun _ => rfl) fun _ => ?_
  · cases n.threadSendDbdesc with
    | none => exact .pure _
    | some t =>
        refine .modify fun s => ?_
        split
        · rfl
        · rfl
  · exact leaves_modifyNeighbor (fun _ => rfl) fun _ _ => rfl

theorem leaves_summarize [RouteCalc ρ] (a : Addr) : Leaves (State.requests on) (summarize on a : M ρ Unit) := by
  refine .bind (.bind (.bind (.hidden _) fun _ => .hidden _) fun _ => .pure _) fun gone => .ite ?_ ?_
  · refine .bind (.hidden _) fun _ => .bind (leaves_lsaCopy a) fun copy => leaves_lsdbAdd (fun _ _ _ => rfl) copy
  · exact .bind (leaves_lsaCopy a) fun copy => leaves_lsdbAdd (fun _ _ _ => rfl) copy

/-- What is scheduled after the headers of a DbDesc. -/
def dbdescSchedule (on : NbrRef) (frame : List UInt8) : M ρ Unit := do
  assert (entriesFit frame 28 20)
  modifyNeighbor on fun n => { n with dbdescSeqnum := u32At frame 24 }
  let n ← theNeighbor on
  when (n.threadSendLsreq.isNone = true) do
    threadAddEvent (.lsreqSend on)
    modifyNeighbor on fun n => { n with threadSendLsreq := some (.lsreqSend on) }
  rescheduleDbdesc on (.dbdescSendNewone on)
  modifyNeighbor on fun n => { n with dbdescLast := (frame.drop 16).take 12 }

theorem leaves_dbdescSchedule (frame : List UInt8) :
    Leaves (State.requests on) (dbdescSchedule on frame : M ρ Unit) := by
  refine .bind (leaves_assert _) fun _ => .bind (leaves_modifyNeighbor (fun _ => rfl) fun _ _ => rfl) fun _ => ?_
  refine .bind (leaves_theNeighbor on) fun n => .bind (.ite ?_ (.pure _)) fun _ => ?_
  · exact .bind (.modify fun _ => rfl) fun _ => leaves_modifyNeighbor (fun _ => rfl) fun _ _ => rfl
  · exact .bind (leaves_rescheduleDbdesc _) fun _ => leaves_modifyNeighbor (fun _ => rfl) fun _ _ => rfl

theorem quiet_threadOff (t : Option Thread) : Within Quiet (threadOff t : M ρ Unit) := by
  cases t with
  | none => exact .pure _
  | some t =>
      refine quiet_state fun s => ?_
      split
      · rfl
      · rfl

theorem quiet_dbdescSchedule (frame : List UInt8) : Within Quiet (dbdescSchedule on frame : M ρ Unit) := by
  refine .bind (quiet_assert _) fun _ => .bind (quiet_modifyNeighbor on _) fun _ =>
    .bind (quiet_theNeighbor on) fun n => ?_
  refine .bind (.when (.bind (quiet_threadAddEvent _) fun _ => quiet_modifyNeighbor on _)) fun _ => ?_
  refine .bind (.bind (quiet_theNeighbor on) fun n => .bind (quiet_threadOff _) fun _ => ?_) fun _ => ?_
  · exact .bind (quiet_threadAddEvent _) fun _ => quiet_modifyNeighbor on _
  · exact quiet_modifyNeighbor on _

theorem holds_of_requests (h : State.requests on s ≠ []) : ∃ n, s.Holds on n := by
  cases hn : s.interfaces[on.oi]?.bind (·.neighborLookup on.routerId) with
  | some n => exact ⟨n, hn⟩
  | none =>
      refine absurd ?_ h
      rw [State.requests, State.view, neighborAt_eq, hn]
      rfl

variable [RouteCalc ρ]

omit [RouteCalc ρ] in
/-- The requests removed one after another. -/
theorem removeEach_requests (as : List Addr) (h : State.requests on s = as) (m : Mem) :
    State.requests on ((as.forM fun a => lsdbRemove a (.neighbor on .requestList) : M ρ Unit) s m).2.1 = [] := by
  induction as generalizing s with
  | nil => exact h
  | cons a as ih =>
      have hne : State.requests on s ≠ [] := by
        rw [h]
        exact List.cons_ne_nil a as
      obtain ⟨n, hn⟩ := holds_of_requests hne
      have hget : (Lsdb.neighbor on .requestList).get s = a :: as := h
      obtain ⟨q, hput, hholds, -, -⟩ := put_run as .requestList hn m
      have hremove : (lsdbRemove a (.neighbor on .requestList) : M ρ Unit) s m = ((), q, m) := by
        have hobserve : (Prog.observe : M ρ (State ρ)) s m = (s, s, m) := rfl
        have hassert : (assert (decide (a ∈ a :: as)) : M ρ Unit) s m = ((), s, m) := by
          rw [decide_eq_true List.mem_cons_self]
          rfl
        unfold lsdbRemove
        rw [Prog.run_bind hobserve, hget, Prog.run_bind hassert, List.erase_cons_head, Prog.run_bind hput]
        rfl
      have hcons : ((a :: as).forM fun a => lsdbRemove a (.neighbor on .requestList) : M ρ Unit) s m =
          (lsdbRemove a (.neighbor on .requestList) >>= fun _ =>
            as.forM fun a => lsdbRemove a (.neighbor on .requestList) : M ρ Unit) s m := rfl
      rw [hcons, Prog.run_bind hremove]
      refine ih ?_
      rw [State.requests, State.view, hholds.neighborAt_eq]
      rfl

/-- All of `negotiation_done` but for the emptying of two lists. -/
def negotiate (on : NbrRef) : M ρ Unit := do
  clearRetransList on
  let link ← lsdbList (.interface on.oi)
  link.forM (summarize on)
  let external ← lsdbList .as
  external.forM (summarize on)
  modifyNeighbor on fun n => { n with dbdescBits := n.dbdescBits &&& ~~~ dbdescIbit }
  neighborStateChange .exchange on

theorem negotiationDone_eq (on : NbrRef) : (negotiationDone on : M ρ Unit) = theNeighbor on >>= fun n =>
    if n.state ≠ .exstart then pure ()
    else lsdbRemoveAll (.neighbor on .summaryList) >>= fun _ =>
      lsdbRemoveAll (.neighbor on .requestList) >>= fun _ => negotiate on := rfl

theorem leaves_negotiate : Leaves (State.requests on) (negotiate on : M ρ Unit) := by
  refine .bind leaves_clearRetransList fun _ => .bind (leaves_lsdbList _) fun link => ?_
  refine .bind (.forM fun a _ => leaves_summarize a) fun _ => .bind (leaves_lsdbList _) fun external => ?_
  refine .bind (.forM fun a _ => leaves_summarize a) fun _ => ?_
  exact .bind (leaves_modifyNeighbor (fun _ => rfl) fun _ _ => rfl) fun _ => leaves_neighborStateChange _

omit [RouteCalc ρ] in
theorem quiet_lsdbRemoveAll (list : NbrList) : Within Quiet (lsdbRemoveAll (.neighbor on list) : M ρ Unit) :=
  .bind (.bind .observe fun _ => .bind quiet_keys fun _ => .pure _) fun _ => .forM fun a _ => quiet_lsdbRemove a id

omit [RouteCalc ρ] in
/-- A list of requests that are all on the heap is emptied. -/
theorem removeAll_requests (h : ∀ a ∈ State.requests on s, a < m.heap.length) :
    State.requests on ((lsdbRemoveAll (.neighbor on .requestList) : M ρ Unit) s m).2.1 = [] := by
  have hall : ((State.requests on s).filter fun a => (m.key a).isSome) = State.requests on s := by
    refine List.filter_eq_self.mpr fun a ha => ?_
    rw [Mem.key, if_pos (h a ha)]
    rfl
  have hlist : (lsdbList (.neighbor on .requestList) : M ρ (List Addr)) s m = (State.requests on s, s, m) := by
    show ((State.requests on s).filter fun a => (m.key a).isSome, s, m) = _
    rw [hall]
  unfold lsdbRemoveAll
  rw [Prog.run_bind hlist]
  exact removeEach_requests _ rfl m

/-- `negotiation_done` leaves no request. -/
theorem negotiationDone_requests (hstate : (s.neighborAt on).state = .exstart) (hholds : ∃ n, s.Holds on n)
    (hrequests : ∀ a ∈ State.requests on s, a < m.heap.length) :
    State.requests on (negotiationDone on s m).2.1 = [] := by
  obtain ⟨n, hn⟩ := hholds
  rw [hn.neighborAt_eq] at hstate
  rw [negotiationDone_eq, Prog.run_bind (theNeighbor_run hn m), if_neg (by simp [hstate])]
  -- the list of summaries goes first
  have hleaves : Leaves (State.requests on) (lsdbRemoveAll (.neighbor on .summaryList) : M ρ Unit) :=
    leaves_lsdbRemoveAll fun _ _ _ => rfl
  have hquiet : Within Quiet (lsdbRemoveAll (.neighbor on .summaryList) : M ρ Unit) := quiet_lsdbRemoveAll _
  refine (leaves_negotiate _ _).trans (removeAll_requests fun a ha => ?_)
  rw [hleaves s m] at ha
  exact (hrequests a ha).trans_le (hquiet s m).length

end Leaves

section Messages

variable [RouteCalc ρ] {on : NbrRef} {frame : List UInt8} {x : State ρ × Mem}

/-- Each header is met in a state of a kind. -/
def EachHeader (P : Nat → State ρ × Mem → Prop) (on : NbrRef) (frame : List UInt8) : List Nat → State ρ × Mem → Prop
  | [], _ => True
  | off :: offs, x => P off x ∧ EachHeader P on frame offs (dbdescHeaderRecv on frame off x.1 x.2).2

/-- What is left by the headers at some offsets. -/
def headersRecv (on : NbrRef) (frame : List UInt8) (offs : List Nat) (x : State ρ × Mem) : State ρ × Mem :=
  (offs.forM (dbdescHeaderRecv on frame) x.1 x.2).2

theorem eachHeader_iff (hx : Sound on x) (offs : List Nat) :
    EachHeader (HeaderExact on frame) on frame offs x ↔ EachHeader (HeaderFine on frame) on frame offs x := by
  induction offs generalizing x with
  | nil => exact Iff.rfl
  | cons off offs ih =>
      refine (and_congr_left fun _ => headerExact_iff hx).trans (and_congr_right fun hfine => ?_)
      exact ih (hfine.sound hx)

theorem EachHeader.sound {offs : List Nat} (h : EachHeader (HeaderFine on frame) on frame offs x) (hx : Sound on x) :
    Sound on (headersRecv on frame offs x) := by
  induction offs generalizing x with
  | nil => exact hx
  | cons off offs ih => exact ih h.2 (h.1.sound hx)

/-- A DbDesc that the slave accepts from a neighbor in ExStart or in Exchange. -/
def Neighbor.Accepts (n : Neighbor) (frame : List UInt8) : Prop :=
  let bits := u8At frame 23
  (n.state = .exstart ∧ checkFlag bits dbdescIbit = true ∧ checkFlag bits dbdescMbit = true ∧
    checkFlag bits dbdescMsbit = true ∧ ospf6Length frame = 28) ∨
  (n.state = .exchange ∧ (frame.drop 16).take 12 ≠ n.dbdescLast ∧ checkFlag bits dbdescMsbit = true ∧
    checkFlag bits dbdescIbit = false ∧ n.options = (frame.drop 17).take 3 ∧ u32At frame 24 = n.dbdescSeqnum + 1)

/-- The headers of a DbDesc become exactly the needed requests. The negotiation, which has no headers, gives up those
that there were. -/
def GainsExactly (on : NbrRef) (frame : List UInt8) (x : State ρ × Mem) : Prop :=
  let offs := entryOffsets frame 28 20
  EachHeader (HeaderExact on frame) on frame offs x ∧
    ∀ k, requestOf (dbdescRecvSlave on frame x.1 x.2).2 on k = requestOf (headersRecv on frame offs x) on k ∨
      ((x.1.neighborAt on).state = .exstart ∧ requestOf (dbdescRecvSlave on frame x.1 x.2).2 on k = none)

theorem entriesInside_eq (h : ospf6Length frame ≤ frame.length) (start size : Nat) (hstart : start ≤ ospf6Length frame) :
    entriesInside frame start size = entryOffsets frame start size := by
  refine List.filter_eq_self.mpr fun off hoff => ?_
  obtain ⟨j, hj, rfl⟩ := List.mem_map.mp hoff
  have hlt := List.mem_range.mp hj
  have hle : (j + 1) * size ≤ ospf6Length frame - start :=
    (Nat.mul_le_mul_right size (Nat.succ_le_of_lt hlt)).trans (Nat.div_mul_le_self _ _)
  rw [Nat.succ_mul] at hle
  exact decide_eq_true (by omega)

theorem dbdescAccept_eq (on : NbrRef) (frame : List UInt8) : (dbdescAccept on frame : M ρ Unit) =
    (entriesInside frame 28 20).forM (dbdescHeaderRecv on frame) >>= fun _ => dbdescSchedule on frame := rfl

/-- An accepted DbDesc in Exchange. -/
theorem dbdescRecvSlave_exchange (hholds : ∃ n, x.1.Holds on n) (hstate : (x.1.neighborAt on).state = .exchange)
    (haccepts : (x.1.neighborAt on).Accepts frame) (hlength : 28 ≤ frame.length) :
    dbdescRecvSlave on frame x.1 x.2 = dbdescAccept on frame x.1 x.2 := by
  obtain ⟨n, hn⟩ := hholds
  rw [hn.neighborAt_eq] at hstate haccepts
  obtain ⟨hexstart, -⟩ | ⟨-, hlast, hms, hinit, hoptions, hseqnum⟩ := haccepts
  · rw [hstate] at hexstart
    cases hexstart
  · have hassert : (assert (decide (28 ≤ frame.length)) : M ρ Unit) x.1 x.2 = ((), x.1, x.2) := by
      rw [decide_eq_true hlength]
      rfl
    unfold dbdescRecvSlave
    rw [Prog.run_bind (theNeighbor_run hn x.2)]
    simp only [hstate]
    unfold dbdescRecvExchange
    rw [Prog.run_bind hassert, if_neg hlast, if_neg (by simp [hms]), if_neg (by simp [hinit]), if_neg (by simp [hoptions]),
      if_neg (by simp [hseqnum])]

/-- An accepted DbDesc in ExStart leaves no request. -/
theorem dbdescRecvSlave_exstart (hx : Sound on x) (hstate : (x.1.neighborAt on).state = .exstart)
    (haccepts : (x.1.neighborAt on).Accepts frame) (hlength : 28 ≤ frame.length) :
    State.requests on (dbdescRecvSlave on frame x.1 x.2).2.1 = [] := by
  obtain ⟨n, hn⟩ := hx.holds
  rw [hn.neighborAt_eq] at hstate haccepts
  obtain ⟨-, hinit, hmore, hms, hspan⟩ | ⟨hexchange, -⟩ := haccepts
  · have hassert : ∀ k ≤ 28, (assert (decide (k ≤ frame.length)) : M ρ Unit) x.1 x.2 = ((), x.1, x.2) := by
      intro k hk
      rw [decide_eq_true (hk.trans hlength)]
      rfl
    obtain ⟨q, hmodify, hholds, -, -⟩ := modifyNeighbor_run (f := fun n => { n with
      dbdescBits := n.dbdescBits &&& ~~~ dbdescMsbit, dbdescSeqnum := u32At frame 24 }) (fun _ => rfl) hn x.2
    have hrequests : State.requests on q = State.requests on x.1 := by
      rw [State.requests, State.view, State.requests, State.view, hholds.neighborAt_eq, hn.neighborAt_eq]
    have hoffs : entriesInside frame 28 20 = [] := by
      simp [entriesInside, entryOffsets, hspan]
    have hrun : dbdescRecvSlave on frame x.1 x.2 = (negotiationDone on >>= fun _ => do
        modifyNeighbor on fun n => { n with options := (frame.drop 17).take 3 }
        dbdescAccept on frame : M ρ Unit) q x.2 := by
      unfold dbdescRecvSlave
      rw [Prog.run_bind (theNeighbor_run hn x.2)]
      simp only [hstate]
      unfold dbdescRecvExstart
      rw [Prog.run_bind (hassert 24 (by decide)), if_pos (by simp [hinit, hmore, hms, hspan]),
        Prog.run_bind (hassert 28 le_rfl), Prog.run_bind hmodify]
    have hrest : Leaves (State.requests on) (do
        modifyNeighbor on fun n => { n with options := (frame.drop 17).take 3 }
        dbdescAccept on frame : M ρ Unit) := by
      rw [dbdescAccept_eq, hoffs]
      refine .bind (leaves_modifyNeighbor (fun _ => rfl) fun _ _ => rfl) fun _ => .bind ?_ fun _ => leaves_dbdescSchedule _
      exact .pure PUnit.unit
    rw [hrun]
    refine (hrest _ _).trans (negotiationDone_requests ?_ ⟨_, hholds⟩ fun a ha => ?_)
    · rw [hholds.neighborAt_eq]
      exact hstate
    · rw [hrequests] at ha
      exact hx.requests a ha
  · rw [hstate] at hexchange
    cases hexchange

end Messages

/-- A Router-LSA of router 3 in the database of the area, and its neighbor 2 in Exchange. -/
def describing : State Unit × Mem where
  fst := { withInterface { (default : Interface) with
      neighborList := [{ Neighbor.create 2 with state := .exchange, options := [0, 0, 0x13], dbdescSeqnum := 5 }] } with
    areaList := [{ (default : Area) with enabled := true, options := [0, 0, 0x13], ifList := [0], lsdb := [0] }] }
  snd := ⟨[.born (.ofHeader ⟨lstypeRouter, 0, 3, 0x80000001, 0x1234, 24⟩ [0, 0, 0, 0x13] false) 1 ⟨5, 0⟩],
    fun _ => ⟨5, 0⟩, fun _ => 0⟩

/-- A DbDesc of that neighbor with the header of the same instance. -/
def describingFrame : List UInt8 :=
  ospf6Header messageTypeDbdesc 48 2 0 ++ [0, 0, 0, 0x13, 5, 220, 0, 1] ++ htonl 6 ++
    (⟨lstypeRouter, 0, 3, 0x80000001, 0x1234, 24⟩ : LsaHeader).bytes 1

theorem describing_sound : Sound ⟨0, 2⟩ describing where
  fault := rfl
  holds := ⟨_, rfl⟩
  valid d hd a ha := by
    cases d with
    | interface oi =>
        cases oi with
        | zero => exact absurd (show a ∈ [] from ha) List.not_mem_nil
        | succ oi => exact absurd ha List.not_mem_nil
    | area oa =>
        cases oa with
        | zero => exact (List.mem_singleton.mp ha).symm ▸ Nat.zero_lt_one
        | succ oa => exact absurd ha List.not_mem_nil
    | as => exact absurd ha List.not_mem_nil
    | _ => exact hd.elim
  requests a ha := absurd ha List.not_mem_nil

theorem describing_accepts : (describing.1.neighborAt ⟨0, 2⟩).Accepts describingFrame := by
  unfold Neighbor.Accepts
  decide

end Harry.Sibling
