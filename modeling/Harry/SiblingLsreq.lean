import Harry.SiblingCopies
import Harry.SiblingProgress

/-! The answer to an LSReq. `ospf6_lsreq_recv` looks each LSA up in a database that a variable points to, puts a copy on
`lsupdate_list` and goes on to the next; the variable is only ever set to the database of the interface. -/

namespace Harry.Sibling

open Harry.Base Harry.Rfp Prog

variable {ρ : Type}

/-- The LSAs that an LSReq asks for. -/
def requestedKeys (frame : List UInt8) : List LsaKey := (entryOffsets frame 16 12).map (lsreqKeyAt frame)

/-- An LSReq of a router, whole. -/
structure IsLsreq (routerId : UInt32) (frame : List UInt8) : Prop where
  span : 16 ≤ ospf6Length frame
  whole : ospf6Length frame ≤ frame.length
  source : u32At frame 4 = routerId

/-- What the database of its own scope has under the key of an LSA, the age aside. -/
def ownContents (x : State ρ × Mem) (on : NbrRef) (k : LsaKey) : Option (LsaHeader × List UInt8) :=
  (x.1.lsdbFor on k.type).bind fun d => contentsOf x d k

/-- What `lsupdate_list` has under a key. -/
def queuedAt (x : State ρ × Mem) (on : NbrRef) (k : LsaKey) : Option (LsaHeader × List UInt8) :=
  contentsOf x (.neighbor on .lsupdateList) k

/-- The LSAs asked for have been queued for the neighbor and nothing else has, without a failed assertion and without a
`bad_lsreq`. -/
structure Answered (on : NbrRef) (ks : List LsaKey) (x y : State ρ × Mem) : Prop where
  fault : y.1.fault = false
  queued : ∀ k, queuedAt y on k = if k ∈ ks then ownContents x on k else queuedAt x on k
  badLsreq : y.1.events.count (.badLsreq on) ≤ x.1.events.count (.badLsreq on)

/-- So they are whatever the clock shows and in whatever order they are asked for. -/
def AnsweredInAnyOrder [RouteCalc ρ] (on : NbrRef) (ks : List LsaKey) (s : State ρ) (m : Mem) : Prop :=
  ∀ clock frame, IsLsreq on.routerId frame → (requestedKeys frame).Perm ks →
    Answered on ks (s, { m with clock := clock }) (lsreqRecv on.oi frame s { m with clock := clock }).2

/-- The LSAs asked for are of link-local scope, and one without a body is asked for once and not queued yet with the same
length. -/
def Answerable (on : NbrRef) (ks : List LsaKey) (x : State ρ × Mem) : Prop :=
  ∀ k ∈ ks, lsaScope k.type = .linklocal ∧ ∀ own ∈ ownContents x on k, own.1.length.toNat ≤ 20 →
    ks.count k = 1 ∧ ∀ old ∈ queuedAt x on k, old.1.length ≠ own.1.length

section Copy

variable {on : NbrRef} {n : Neighbor} {s : State ρ} {m m' : Mem} {a b : Addr} {x y : State ρ × Mem}

/-- What a list of a neighbor says goes by the list and what is on the heap. -/
theorem contentsOf_neighbor (h : Quiet x y) (hx : Filed x) {list : NbrList}
    (hlist : (Lsdb.neighbor on list).get y.1 = (Lsdb.neighbor on list).get x.1) (k : LsaKey) :
    contentsOf y (.neighbor on list) k = contentsOf x (.neighbor on list) k := by
  have hcopy : copyOf y (.neighbor on list) k = copyOf x (.neighbor on list) k := by
    rw [copyOf, copyOf, hlist]
    exact find?_congr fun a ha => by rw [h.key (hx.lt_of_get ha)]
  rw [contentsOf, contentsOf, hcopy]
  cases hfound : copyOf x (.neighbor on list) k with
  | none => rfl
  | some a =>
      have ha : a < x.2.heap.length := hx.lt_of_copyOf hfound
      exact congrArg some (Prod.ext (h.header ha) (h.body ha))

variable [RouteCalc ρ]

/-- The events are left alone where an LSA goes on a list of a neighbor. -/
theorem events_lsdbAdd (a : Addr) (on : NbrRef) (list : NbrList) :
    Leaves (fun s : State ρ => s.events) (lsdbAdd a (.neighbor on list) : M ρ Unit) := by
  refine .bind .observe fun s => .bind (.hidden _) fun keyOf => .bind (.modify fun _ => rfl) fun _ => ?_
  cases (insertLsa keyOf a ((Lsdb.neighbor on list).get s)).2 with
  | none =>
      have hinsert : (hookInsert (.neighbor on list) a : M ρ Unit) = headerPrint a := hookInsert_list rfl a
      show Leaves _ (hookInsert (.neighbor on list) a : M ρ Unit)
      rw [hinsert]
      exact fun _ _ => rfl
  | some old =>
      intro s m
      obtain ⟨m', -, hrun⟩ := hookReplace_run (show (Lsdb.neighbor on list).isList = true from rfl) old a s m
      show (hookReplace (.neighbor on list) old a s m).2.1.events = s.events
      rw [hrun]
      split <;> rfl

/-- A copy of an LSA is queued. What fault there is comes of an LSA that it takes the place of. -/
theorem queue_run (a : Addr) (hx : Filed x) (hn : x.1.Holds on n) :
    ∃ y : State ρ × Mem, copyTo a (.neighbor on .lsupdateList) x.1 x.2 = ((), y) ∧ Filed y ∧ Quiet x y ∧
      (∃ n', y.1.Holds on n') ∧ y.1.events = x.1.events ∧
      (∀ k, queuedAt y on k = if (x.2.lsa a).header.key = k then some ((x.2.lsa a).header, (x.2.lsa a).body)
        else queuedAt x on k) ∧
      (∀ k, copyOf y (.neighbor on .lsupdateList) k = if (x.2.lsa a).header.key = k then some x.2.heap.length
        else copyOf x (.neighbor on .lsupdateList) k) ∧
      Refreshes (x.2.copied a) y.2 ∧
      y.1.fault = (x.1.fault || (copyOf x (.neighbor on .lsupdateList) (x.2.lsa a).header.key).any fun old =>
        clash (x.2.copied a) old x.2.heap.length) := by
  obtain ⟨q, m', hrun, href, hdbs, hholds, hfault⟩ := lsdbAdd_run x.2.heap.length .lsupdateList hn (x.2.copied a)
  have hcopy : copyTo a (.neighbor on .lsupdateList) x.1 x.2 = ((), q, m') := by
    have hbind : copyTo a (.neighbor on .lsupdateList) x.1 x.2 = (lsaCopy a >>= fun copy =>
        lsdbAdd copy (.neighbor on .lsupdateList) : M ρ Unit) x.1 x.2 := rfl
    rw [hbind, Prog.run_bind (lsaCopy_run a x.1 x.2)]
    exact hrun
  have hfiled : Filed (q, m') := by
    have hkept := (filed_copyTo a id : Within (Keeping Filed)
      (copyTo a (.neighbor on .lsupdateList) : M ρ Unit)) x.1 x.2 hx
    rwa [hcopy] at hkept
  have hcopied := quiet_copied x.1 x.2 a
  have hq : Quiet (x.1, x.2.copied a) (q, m') := .of_refreshes hdbs href
  have hall : Quiet x (q, m') := Frame.trans hcopied hq
  have hlist := get_neighbor hn .lsupdateList
  have hlist' : (Lsdb.neighbor on .lsupdateList).get q =
      (insertLsa (x.2.copied a).key x.2.heap.length (n.list .lsupdateList)).1 := by
    rw [get_neighbor hholds, list_setList]
  have hself : x.2.heap.length < (x.2.copied a).heap.length := by rw [length_copied]; exact Nat.lt_succ_self _
  have hbefore : ∀ b ∈ n.list .lsupdateList, b < x.2.heap.length := by
    rw [← hlist]
    exact fun b hb => hx.lt_of_get hb
  have hkey : (x.2.copied a).key x.2.heap.length = some (x.2.lsa a).header.key := by
    rw [key_of_lt hself, (contents_copied x.2 a).1]
  have hkeys : ∀ b ∈ n.list .lsupdateList, (x.2.copied a).key b = x.2.key b := fun b hb => hcopied.key (hbefore b hb)
  -- the list by its keys
  have hcopyOf : ∀ k, copyOf (q, m') (.neighbor on .lsupdateList) k = if (x.2.lsa a).header.key = k then
      some x.2.heap.length else copyOf x (.neighbor on .lsupdateList) k := by
    intro k
    have hstill : ∀ b ∈ (Lsdb.neighbor on .lsupdateList).get q, m'.key b = (x.2.copied a).key b := by
      intro b hb
      rw [hlist'] at hb
      obtain rfl | hb := mem_insertLsa hb
      · exact hq.key hself
      · exact hq.key ((hbefore b hb).trans hself)
    rw [copyOf, find?_congr fun b hb => by rw [hstill b hb], hlist', find?_insertLsa hkey]
    refine if_congr Iff.rfl rfl ?_
    rw [copyOf, hlist]
    exact find?_congr fun b hb => by rw [hkeys b hb]
  refine ⟨(q, m'), hcopy, hfiled, hall, ⟨_, hholds⟩, ?_, fun k => ?_, hcopyOf, href, ?_⟩
  · have hevents := events_lsdbAdd x.2.heap.length on .lsupdateList x.1 (x.2.copied a)
    rwa [hrun] at hevents
  · rw [queuedAt, contentsOf, hcopyOf]
    by_cases hk : (x.2.lsa a).header.key = k
    · rw [if_pos hk, if_pos hk, Option.map_some, hq.header hself, hq.body hself, (contents_copied x.2 a).1,
        (contents_copied x.2 a).2]
    · rw [if_neg hk, if_neg hk, queuedAt, contentsOf]
      cases hfound : copyOf x (.neighbor on .lsupdateList) k with
      | none => rfl
      | some b =>
          have hb : b < x.2.heap.length := hx.lt_of_copyOf hfound
          exact congrArg some (Prod.ext (hall.header hb) (hall.body hb))
  · -- what it takes the place of is what the list has under its key
    have hordered : Ordered (x.2.copied a) (n.list .lsupdateList) := by
      have hcopyFiled : Filed (x.1, x.2.copied a) := plain_filed.lsaCopy a x.1 x.2 hx
      have hget := hcopyFiled.ordered_get (.neighbor on .lsupdateList)
      rwa [get_neighbor hn] at hget
    rw [hfault, hordered.replaced hself fun b hb => (hbefore b hb).trans hself, (contents_copied x.2 a).1, copyOf, hlist,
      find?_congr fun b hb => by rw [hkeys b hb]]

end Copy

section Loop

variable [RouteCalc ρ] {on : NbrRef} {ks : List LsaKey} {k : LsaKey} {x : State ρ × Mem}

/-- The neighbor is there, nothing has failed, and the LSAs are where they should be. -/
structure Serves (on : NbrRef) (x : State ρ × Mem) : Prop where
  filed : Filed x
  fault : x.1.fault = false
  holds : ∃ n, x.1.Holds on n

omit [RouteCalc ρ] in
theorem lsdbFor_linklocal (hscope : lsaScope k.type = .linklocal) : x.1.lsdbFor on k.type = some (.interface on.oi) := by
  rw [State.lsdbFor, hscope]

omit [RouteCalc ρ] in
theorem ownContents_linklocal (hscope : lsaScope k.type = .linklocal) :
    ownContents x on k = contentsOf x (.interface on.oi) k := by
  rw [ownContents, lsdbFor_linklocal hscope]
  rfl

omit [RouteCalc ρ] in
theorem Filed.valid (hx : Filed x) : Valid x := fun _ _ _ ha => hx.lt_of_get ha

omit [RouteCalc ρ] in
theorem ownContents_quiet {y : State ρ × Mem} (h : Quiet x y) (hx : Filed x) (on : NbrRef) (k : LsaKey) :
    ownContents y on k = ownContents x on k := by
  rw [ownContents, ownContents, lsdbFor_congr h.areas]
  cases hd : x.1.lsdbFor on k.type with
  | none => rfl
  | some d =>
      have hscoped := lsdbFor_scoped hd
      exact contentsOf_congr (h.copyOf hx.valid hscoped k) hx.valid hscoped h.core

/-- An entry of link-local scope. -/
theorem lsreqLoop_cons (lsdb : Option Lsdb) (hscope : lsaScope k.type = .linklocal) {a : Addr}
    (ha : copyOf x (.interface on.oi) k = some a) :
    lsreqLoop on lsdb (k :: ks) x.1 x.2 = (copyTo a (.neighbor on .lsupdateList) >>= fun _ =>
      lsreqLoop on (some (.interface on.oi)) ks : M ρ Bool) x.1 x.2 := by
  have hlookup : (lsdbLookup k (some (.interface on.oi)) : M ρ (Option Addr)) x.1 x.2 = (some a, x.1, x.2) :=
    congrArg (·, x.1, x.2) ha
  rw [lsreqLoop, if_neg (by simp [hscope]), if_pos hscope, Prog.run_bind hlookup]
  rfl

/-- Whether a copy of an LSA clashes with the one it takes the place of. -/
def clashesAt (on : NbrRef) (a : Addr) (x : State ρ × Mem) : Bool :=
  (copyOf x (.neighbor on .lsupdateList) (x.2.lsa a).header.key).any fun old => clash (x.2.copied a) old x.2.heap.length

omit [RouteCalc ρ] in
/-- Only an LSA without a body clashes, and only with one of its length. -/
theorem clashesAt_eq_false (hx : Filed x) {a : Addr}
    (h : (x.2.lsa a).header.length.toNat ≤ 20 → ∀ old ∈ queuedAt x on (x.2.lsa a).header.key,
      old.1.length ≠ (x.2.lsa a).header.length) : clashesAt on a x = false := by
  unfold clashesAt
  cases hfound : copyOf x (.neighbor on .lsupdateList) (x.2.lsa a).header.key with
  | none => rfl
  | some old =>
      have hlt : old < x.2.heap.length := hx.lt_of_copyOf hfound
      have hold : ((x.2.copied a).lsa old).header = (x.2.lsa old).header := (quiet_copied x.1 x.2 a).header hlt
      rw [Option.any_some, clash, hold, (contents_copied x.2 a).1]
      by_cases hlength : (x.2.lsa old).header.length = (x.2.lsa a).header.length
      · have hlong : ¬ (x.2.lsa a).header.length.toNat ≤ 20 := fun hle =>
          h hle ((x.2.lsa old).header, (x.2.lsa old).body) (by rw [queuedAt, contentsOf, hfound]; rfl) hlength
        rw [hlength, decide_eq_false hlong, Bool.and_false]
      · rw [beq_eq_false_iff_ne.mpr hlength, Bool.and_false, Bool.false_and]

omit [RouteCalc ρ] in
theorem contents_of_copyOf {d : Lsdb} {a : Addr} (h : copyOf x d k = some a) :
    (x.2.lsa a).header.key = k ∧ contentsOf x d k = some ((x.2.lsa a).header, (x.2.lsa a).body) := by
  refine ⟨header_of_key (by simpa using List.find?_some h), ?_⟩
  rw [contentsOf, h]
  rfl

/-- One entry after another: they are all queued. -/
theorem lsreqLoop_answers (lsdb : Option Lsdb) (hx : Serves on x) (hks : Answerable on ks x)
    (hown : ∀ k ∈ ks, (ownContents x on k).isSome = true) :
    ∃ y, lsreqLoop on lsdb ks x.1 x.2 = (true, y) ∧ Serves on y ∧ y.1.events = x.1.events ∧
      ∀ k, queuedAt y on k = if k ∈ ks then ownContents x on k else queuedAt x on k := by
  induction ks generalizing lsdb x with
  | nil => exact ⟨x, rfl, hx, rfl, fun k => (if_neg List.not_mem_nil).symm⟩
  | cons k ks ih =>
      obtain ⟨hscope, hbare⟩ := hks k List.mem_cons_self
      obtain ⟨n, hn⟩ := hx.holds
      obtain ⟨own, hmine⟩ := Option.isSome_iff_exists.mp (hown k List.mem_cons_self)
      have hcontents := hmine
      rw [ownContents_linklocal hscope, contentsOf, Option.map_eq_some_iff] at hcontents
      obtain ⟨a, ha, rfl⟩ := hcontents
      obtain ⟨hkey, -⟩ := contents_of_copyOf ha
      obtain ⟨y, hrun, hfiled, hquiet, hholds, hevents, hqueued, -, -, hfault⟩ := queue_run a hx.filed hn
      have hclash : clashesAt on a x = false :=
        clashesAt_eq_false hx.filed fun hle => hkey.symm ▸ (hbare _ hmine hle).2
      have hready : Serves on y := ⟨hfiled, by rw [hfault, hx.fault, Bool.false_or]; exact hclash, hholds⟩
      have hsame := ownContents_quiet hquiet hx.filed on
      rw [hkey] at hqueued
      have hks' : Answerable on ks y := by
        intro j hj
        obtain ⟨hscope', hbare'⟩ := hks j (List.mem_cons_of_mem k hj)
        refine ⟨hscope', fun own hown' hle => ?_⟩
        rw [hsame] at hown'
        obtain ⟨hcount, hold⟩ := hbare' own hown' hle
        have hpos := List.count_pos_iff.mpr hj
        rw [List.count_cons] at hcount
        have hne : k ≠ j := by
          rintro rfl
          simp only [beq_self_eq_true, if_true] at hcount
          omega
        rw [hqueued, if_neg hne]
        rw [beq_eq_false_iff_ne.mpr hne] at hcount
        exact ⟨hcount, hold⟩
      obtain ⟨z, hrun', hready', hevents', hqueued'⟩ := ih (some (.interface on.oi)) hready hks' fun j hj => by
        rw [hsame]
        exact hown j (List.mem_cons_of_mem k hj)
      refine ⟨z, ?_, hready', hevents'.trans hevents, fun j => ?_⟩
      · rw [lsreqLoop_cons lsdb hscope ha, Prog.run_bind hrun]
        exact hrun'
      · rw [hqueued', hsame, hqueued]
        by_cases hj : j ∈ ks
        · rw [if_pos hj, if_pos (List.mem_cons_of_mem k hj)]
        · rw [if_neg hj]
          by_cases hkj : k = j
          · rw [if_pos hkj, if_pos (hkj ▸ List.mem_cons_self), ← hkj, hmine]
          · rw [if_neg hkj, if_neg fun h => (List.mem_cons.mp h).elim (fun h => hkj h.symm) hj]

section Late

omit [RouteCalc ρ]

variable {m m' : Mem} {t : Timeval} {a b : Addr}

theorem ageAt_late {l : Lsa} (h : 3600 ≤ (t.sec - l.birth.sec) % 2 ^ 32) : l.ageAt t = maxage := by
  have hmax : maxage.toNat = 3600 := rfl
  by_cases hold : maxage ≤ l.age
  · exact ageAt_of_le hold t
  · rw [ageAt_of_not_le hold, Lsa.sinceBirth]
    split
    · rfl
    · have heq : ((t.sec - l.birth.sec) % 2 ^ 32).toNat = 3600 := by omega
      rw [heq]
      rfl

/-- Two LSAs are both of `MaxAge` at some time. -/
theorem exists_late (l l' : Lsa) : ∃ t, l.ageAt t = maxage ∧ l'.ageAt t = maxage := by
  by_cases h : 3600 ≤ (l.birth.sec + 2 ^ 31 - l'.birth.sec) % 2 ^ 32
  · exact ⟨⟨l.birth.sec + 2 ^ 31, 0⟩, ageAt_late (by dsimp only; omega), ageAt_late h⟩
  · refine ⟨⟨l.birth.sec + 2 ^ 30, 0⟩, ageAt_late (by dsimp only; omega), ageAt_late ?_⟩
    dsimp only
    omega

theorem ageAt_maxage {l : Lsa} (h : l.ageAt t = maxage) : ({ l with age := l.ageAt t } : Lsa).ageAt t = maxage :=
  ageAt_of_le (l := { l with age := l.ageAt t }) (h ▸ UInt16.le_refl maxage) t

/-- It is the same time all along. -/
def Mem.StandsAt (m : Mem) (t : Timeval) : Prop := ∀ n, m.clock n = t

theorem Mem.StandsAt.refresh (h : m.StandsAt t) (a : Addr) : (m.refresh a).StandsAt t := fun n => h (n + 1)

theorem late_refresh (h : m.StandsAt t) (hb : (m.lsa b).ageAt t = maxage) (a : Addr) :
    ((m.refresh a).lsa b).ageAt t = maxage := by
  show ((m.tick.update a fun l => { l with age := l.ageAt (m.clock 0) }).lsa b).ageAt t = maxage
  rw [lsa_update]
  split
  · next heq =>
      rw [h 0]
      exact ageAt_maxage (heq.1 ▸ hb)
  · exact hb

theorem Mem.StandsAt.refreshes (h : m.StandsAt t) (hm : Refreshes m m') : m'.StandsAt t := by
  induction hm with
  | refl => exact h
  | step a _ ih => exact ih.refresh a

theorem late_refreshes (h : m.StandsAt t) (hm : Refreshes m m') (hb : (m.lsa b).ageAt t = maxage) :
    (m'.lsa b).ageAt t = maxage := by
  induction hm with
  | refl => exact hb
  | step a hm ih => exact late_refresh (h.refreshes hm) ih a

theorem late_copied (h : m.StandsAt t) (ha : (m.lsa a).ageAt t = maxage) :
    ((m.copied a).lsa m.heap.length).ageAt t = maxage := by
  rw [copied_self]
  exact late_refresh h ha a

/-- Two LSAs of `MaxAge` without a body clash. -/
theorem clash_of_late (h : m.StandsAt t) (ha : (m.lsa a).ageAt t = maxage) (hb : (m.lsa b).ageAt t = maxage)
    (hlength : (m.lsa b).header.length = (m.lsa a).header.length) (hle : (m.lsa a).header.length.toNat ≤ 20) :
    clash m b a = true := by
  have hrefresh := late_refresh h ha b
  have hclock : (m.refresh b).clock 0 = t := h 1
  unfold clash
  rw [h 0, hb, hclock, hrefresh, hlength, decide_eq_true hle]
  simp

end Late

/-- An LSA without a body that is asked for twice, or is queued already with the same length, fails an assertion at a time
at which it is of `MaxAge`. -/
theorem lsreqLoop_faults (lsdb : Option Lsdb) {t : Timeval} (hx : Filed x) (hholds : ∃ n, x.1.Holds on n)
    (hclock : x.2.StandsAt t)
    (hscope : ∀ j ∈ ks, lsaScope j.type = .linklocal) (hown : ∀ j ∈ ks, (ownContents x on j).isSome = true)
    (hlate : ∀ a, copyOf x (.interface on.oi) k = some a ∨ copyOf x (.neighbor on .lsupdateList) k = some a →
      (x.2.lsa a).ageAt t = maxage)
    {own : LsaHeader × List UInt8} (hmine : ownContents x on k = some own) (hle : own.1.length.toNat ≤ 20)
    (hbad : k ∈ ks ∧ (∃ old ∈ queuedAt x on k, old.1.length = own.1.length) ∨ 2 ≤ ks.count k) :
    (lsreqLoop on lsdb ks x.1 x.2).2.1.fault = true := by
  induction ks generalizing lsdb x with
  | nil => exact hbad.elim (fun h => absurd h.1 List.not_mem_nil) fun h => absurd h (by simp)
  | cons j js ih =>
      obtain ⟨n, hn⟩ := hholds
      have hscopej := hscope j List.mem_cons_self
      have hcontents := hown j List.mem_cons_self
      rw [ownContents_linklocal hscopej, contentsOf, Option.isSome_map, Option.isSome_iff_exists] at hcontents
      obtain ⟨a, ha⟩ := hcontents
      obtain ⟨hkey, hacontents⟩ := contents_of_copyOf ha
      obtain ⟨y, hrun, hfiled, hquiet, hholds', -, hqueued, hcopies, href, hfault⟩ := queue_run a hx hn
      have hsame := ownContents_quiet hquiet hx on
      rw [lsreqLoop_cons lsdb hscopej ha, Prog.run_bind hrun]
      rw [hkey] at hqueued hcopies
      have hsticky : y.1.fault = true → (lsreqLoop on (some (.interface on.oi)) js y.1 y.2).2.1.fault = true :=
        climbs_faulted.lsreqLoop on js (some (.interface on.oi)) y.1 y.2
      have hcopied : ∀ b < x.2.heap.length, (x.2.lsa b).ageAt t = maxage → ((x.2.copied a).lsa b).ageAt t = maxage :=
        fun b hb hlateb => (copied_of_lt (a := a) hb).symm ▸ late_refresh hclock hlateb a
      have hclock' : (x.2.copied a).StandsAt t := hclock.refresh a
      have hcopyk : copyOf y (.interface on.oi) k = copyOf x (.interface on.oi) k :=
        hquiet.copyOf hx.valid (show (Lsdb.interface on.oi).Scoped from trivial) k
      have hlateDb : ∀ b, copyOf y (.interface on.oi) k = some b → (y.2.lsa b).ageAt t = maxage := by
        intro b hb
        rw [hcopyk] at hb
        have hlt : b < x.2.heap.length := hx.lt_of_copyOf hb
        exact late_refreshes hclock' href (hcopied b hlt (hlate b (.inl hb)))
      have hnext : (∀ b, copyOf y (.neighbor on .lsupdateList) k = some b → (y.2.lsa b).ageAt t = maxage) →
          (k ∈ js ∧ (∃ old ∈ queuedAt y on k, old.1.length = own.1.length) ∨ 2 ≤ js.count k) →
            (lsreqLoop on (some (.interface on.oi)) js y.1 y.2).2.1.fault = true := fun hlateList hbad' =>
        ih (some (.interface on.oi)) hfiled hholds' (hclock'.refreshes href)
          (fun i hi => hscope i (List.mem_cons_of_mem j hi))
          (fun i hi => by rw [hsame]; exact hown i (List.mem_cons_of_mem j hi))
          (fun b hb => hb.elim (hlateDb b) (hlateList b)) ((hsame k).trans hmine) hbad'
      by_cases hjk : j = k
      · subst hjk
        obtain rfl : ((x.2.lsa a).header, (x.2.lsa a).body) = own :=
          Option.some.inj (hacontents.symm.trans ((ownContents_linklocal hscopej).symm.trans hmine))
        have hlatea := hlate a (.inl ha)
        by_cases hold : ∃ old ∈ queuedAt x on j, old.1.length = (x.2.lsa a).header.length
        · -- the copy takes the place of one that is queued already
          obtain ⟨old, hmem, hlength⟩ := hold
          obtain ⟨b, hb, rfl⟩ := Option.map_eq_some_iff.mp hmem
          have hlt : b < x.2.heap.length := hx.lt_of_copyOf hb
          have hheader := (contents_copied x.2 a).1
          have hclash : clash (x.2.copied a) b x.2.heap.length = true := by
            refine clash_of_late hclock' (late_copied hclock hlatea) (hcopied b hlt (hlate b (.inr hb))) ?_ ?_
            · rw [(quiet_copied x.1 x.2 a).header hlt, hheader]
              exact hlength
            · rw [hheader]
              exact hle
          refine hsticky ?_
          rw [hfault, hkey, hb, Option.any_some, hclash, Bool.or_true]
        · have hcount : 2 ≤ (j :: js).count j := hbad.resolve_left fun h => hold h.2
          rw [List.count_cons_self] at hcount
          refine hnext (fun b hb => ?_) (.inl ⟨List.count_pos_iff.mp (by omega), _, ?_, rfl⟩)
          · rw [hcopies, if_pos rfl] at hb
            obtain rfl := Option.some.inj hb
            exact late_refreshes hclock' href (late_copied hclock hlatea)
          · rw [hqueued, if_pos rfl]
            rfl
      · refine hnext (fun b hb => ?_) (hbad.imp (fun h => ⟨?_, ?_⟩) fun h => ?_)
        · rw [hcopies, if_neg hjk] at hb
          have hlt : b < x.2.heap.length := hx.lt_of_copyOf hb
          exact late_refreshes hclock' href (hcopied b hlt (hlate b (.inr hb)))
        · exact (List.mem_cons.mp h.1).resolve_left fun h => hjk h.symm
        · rw [hqueued, if_neg hjk]
          exact h.2
        · rwa [List.count_cons_of_ne hjk] at h

end Loop

section Frame

variable {ks : List LsaKey} {routerId : UInt32}

theorem u16At_append (bs cs : List UInt8) (x : UInt16) : u16At (bs ++ (htons16 x ++ cs)) bs.length = x := by
  have hat : ∀ i, u8At (bs ++ (htons16 x ++ cs)) (bs.length + i) = u8At (htons16 x ++ cs) i := fun i => by
    unfold u8At
    rw [List.getD_eq_getElem?_getD, List.getElem?_append_right (Nat.le_add_right _ _), Nat.add_sub_cancel_left,
      List.getD_eq_getElem?_getD]
  have hlt := x.toNat_lt
  unfold u16At
  rw [show u8At (bs ++ (htons16 x ++ cs)) bs.length = u8At (htons16 x ++ cs) 0 from hat 0, hat 1]
  refine UInt16.toNat_inj.mp ?_
  show (UInt16.ofNat ((UInt8.ofNat (x.toNat / 2 ^ 8)).toNat * 2 ^ 8 + (UInt8.ofNat x.toNat).toNat)).toNat = _
  rw [UInt16.toNat_ofNat', UInt8.toNat_ofNat', UInt8.toNat_ofNat']
  omega

/-- An entry as `ospf6_lsreq_send` writes it. -/
def lsreqEntry (k : LsaKey) : List UInt8 := [0, 0] ++ htons16 k.type ++ htonl k.id ++ htonl k.advRouter

theorem u32At_append (bs cs : List UInt8) (x : UInt32) : u32At (bs ++ (htonl x ++ cs)) bs.length = x := by
  have hat : ∀ i, u8At (bs ++ (htonl x ++ cs)) (bs.length + i) = u8At (htonl x ++ cs) i := fun i => by
    unfold u8At
    rw [List.getD_eq_getElem?_getD, List.getElem?_append_right (Nat.le_add_right _ _), Nat.add_sub_cancel_left,
      List.getD_eq_getElem?_getD]
  unfold u32At
  rw [show u8At (bs ++ (htonl x ++ cs)) bs.length = u8At (htonl x ++ cs) 0 from hat 0, hat 1, hat 2, hat 3]
  exact ntohl_htonl x

theorem lsreqKeyAt_append (bs cs : List UInt8) (k : LsaKey) : lsreqKeyAt (bs ++ (lsreqEntry k ++ cs)) bs.length = k := by
  have htype : bs ++ (lsreqEntry k ++ cs) = (bs ++ [0, 0]) ++
      (htons16 k.type ++ (htonl k.id ++ htonl k.advRouter ++ cs)) := by
    simp [lsreqEntry]
  have hid : bs ++ (lsreqEntry k ++ cs) = (bs ++ [0, 0] ++ htons16 k.type) ++
      (htonl k.id ++ (htonl k.advRouter ++ cs)) := by
    simp [lsreqEntry]
  have hadv : bs ++ (lsreqEntry k ++ cs) = (bs ++ [0, 0] ++ htons16 k.type ++ htonl k.id) ++
      (htonl k.advRouter ++ cs) := by
    simp [lsreqEntry]
  have hlen : (htons16 k.type).length = 2 := rfl
  have hlen' : (htonl k.id).length = 4 := rfl
  unfold lsreqKeyAt
  refine LsaKey.mk.injEq _ _ _ _ _ _ |>.mpr ⟨?_, ?_, ?_⟩
  · rw [htype, show bs.length + 2 = (bs ++ [0, 0]).length by simp]
    exact u16At_append _ _ _
  · rw [hid, show bs.length + 4 = (bs ++ [0, 0] ++ htons16 k.type).length by simp [hlen]]
    exact u32At_append _ _ _
  · rw [hadv, show bs.length + 8 = (bs ++ [0, 0] ++ htons16 k.type ++ htonl k.id).length by simp [hlen, hlen']]
    exact u32At_append _ _ _

theorem lsreqKeysAt (ks : List LsaKey) (bs : List UInt8) :
    (List.range ks.length).map (fun j => lsreqKeyAt (bs ++ ks.flatMap lsreqEntry) (bs.length + j * 12)) = ks := by
  induction ks generalizing bs with
  | nil => rfl
  | cons k ks ih =>
      have hnext := ih (bs ++ lsreqEntry k)
      rw [List.length_cons, List.range_succ_eq_map, List.map_cons, List.map_map, List.flatMap_cons, Nat.zero_mul,
        Nat.add_zero,
        lsreqKeyAt_append]
      refine congrArg (k :: ·) (Eq.trans (List.map_congr_left fun j _ => ?_) hnext)
      have hlen : (bs ++ lsreqEntry k).length = bs.length + 12 := List.length_append
      rw [hlen, List.append_assoc, Function.comp_apply]
      exact congrArg _ (by omega)

/-- An LSReq of a router for some LSAs. -/
def lsreqFrame (routerId : UInt32) (ks : List LsaKey) : List UInt8 :=
  ospf6Header messageTypeLsreq (16 + 12 * ks.length) routerId 0 ++ ks.flatMap lsreqEntry

theorem length_lsreqFrame : (lsreqFrame routerId ks).length = 16 + 12 * ks.length := by
  have hentries : (ks.flatMap lsreqEntry).length = 12 * ks.length := by
    induction ks with
    | nil => rfl
    | cons k ks ih =>
        have hentry : (lsreqEntry k).length = 12 := rfl
        rw [List.flatMap_cons, List.length_append, ih, hentry, List.length_cons]
        omega
  rw [lsreqFrame, List.length_append, hentries]
  rfl

theorem ospf6Length_lsreqFrame (h : 16 + 12 * ks.length < 2 ^ 16) :
    ospf6Length (lsreqFrame routerId ks) = 16 + 12 * ks.length := by
  show (UInt16.ofNat ((UInt8.ofNat ((16 + 12 * ks.length) / 2 ^ 8)).toNat * 2 ^ 8 +
    (UInt8.ofNat (16 + 12 * ks.length)).toNat)).toNat = _
  rw [UInt16.toNat_ofNat', UInt8.toNat_ofNat', UInt8.toNat_ofNat']
  omega

theorem isLsreq_lsreqFrame (routerId : UInt32) (h : 16 + 12 * ks.length < 2 ^ 16) :
    IsLsreq routerId (lsreqFrame routerId ks) where
  span := by
    rw [ospf6Length_lsreqFrame h]
    exact Nat.le_add_right 16 _
  whole := by rw [ospf6Length_lsreqFrame h, length_lsreqFrame]
  source := ntohl_htonl routerId

theorem requestedKeys_lsreqFrame (routerId : UInt32) (h : 16 + 12 * ks.length < 2 ^ 16) :
    requestedKeys (lsreqFrame routerId ks) = ks := by
  have hkeys := lsreqKeysAt ks (ospf6Header messageTypeLsreq (16 + 12 * ks.length) routerId 0)
  rw [requestedKeys, entryOffsets, ospf6Length_lsreqFrame h, List.map_map, Nat.add_sub_cancel_left,
    Nat.mul_div_cancel_left _ (by decide)]
  exact hkeys

/-- There is room in a message for what a message asks for. -/
theorem room_requestedKeys {frame : List UInt8} (h : 16 ≤ ospf6Length frame) :
    16 + 12 * (requestedKeys frame).length < 2 ^ 16 := by
  have hlt : ospf6Length frame < 2 ^ 16 := (u16At frame 2).toNat_lt
  rw [requestedKeys, List.length_map, entryOffsets, List.length_map, List.length_range]
  omega

end Frame

section Answer

variable [RouteCalc ρ] {on : NbrRef} {frame : List UInt8} {n : Neighbor} {s : State ρ} {m : Mem} {x y : State ρ × Mem}

/-- What `ospf6_lsreq_recv` does once it has got to the end of the message. -/
def lsreqSchedule (on : NbrRef) (frame : List UInt8) : M ρ Unit := do
  assert (entriesFit frame 16 12)
  let n ← theNeighbor on
  threadOff n.threadSendLsupdate
  threadAddEvent (.lsupdateSendNeighbor on)
  modifyNeighbor on fun n => { n with threadSendLsupdate := some (.lsupdateSendNeighbor on) }

theorem lsreqRecv_run (hn : x.1.Holds on n) (hframe : IsLsreq on.routerId frame) : lsreqRecv on.oi frame x.1 x.2 =
    (lsreqLoop on none (requestedKeys frame) >>= fun atEnd => if atEnd then lsreqSchedule on frame else pure () : M ρ Unit)
      x.1 x.2 := by
  obtain ⟨i, hi, hfound⟩ := Option.bind_eq_some_iff.mp hn
  have hinterface : (theInterface on.oi : M ρ Interface) x.1 x.2 = (i, x.1, x.2) := by
    simp only [theInterface, bind, observe, hi]
    rfl
  unfold lsreqRecv
  rw [Prog.run_bind hinterface]
  dsimp only
  rw [hframe.source, if_neg (by simp [hfound]), entriesInside_eq hframe.whole 16 12 hframe.span]
  rfl

omit [RouteCalc ρ] in
/-- The end of an answer changes nothing of it. -/
theorem lsreqSchedule_run (hx : Serves on x) (hframe : IsLsreq on.routerId frame) :
    ∃ y, lsreqSchedule on frame x.1 x.2 = ((), y) ∧ y.1.fault = false ∧ (∀ k, queuedAt y on k = queuedAt x on k) ∧
      y.1.events.count (.badLsreq on) ≤ x.1.events.count (.badLsreq on) := by
  obtain ⟨n, hn⟩ := hx.holds
  have hfit : (assert (entriesFit frame 16 12) : M ρ Unit) x.1 x.2 = ((), x.1, x.2) := by
    have hall : entriesFit frame 16 12 = true :=
      List.all_eq_true.mpr (List.filter_eq_self.mp (entriesInside_eq hframe.whole 16 12 hframe.span))
    rw [hall]
    rfl
  have hoff : ∃ events timers, (threadOff n.threadSendLsupdate : M ρ Unit) x.1 x.2 =
      ((), { x.1 with events := events, timers := timers }, x.2) ∧
        events.count (.badLsreq on) ≤ x.1.events.count (.badLsreq on) := by
    cases n.threadSendLsupdate with
    | none => exact ⟨x.1.events, x.1.timers, rfl, le_rfl⟩
    | some t =>
        by_cases ht : t ∈ x.1.events
        · refine ⟨x.1.events.erase t, x.1.timers, ?_, List.erase_sublist.count_le _⟩
          exact congrArg (fun s => ((), s, x.2)) (if_pos ht)
        · refine ⟨x.1.events, x.1.timers.erase t, ?_, le_rfl⟩
          exact congrArg (fun s => ((), s, x.2)) (if_neg ht)
  obtain ⟨events, timers, hrun, hcount⟩ := hoff
  let s₁ : State ρ := { x.1 with events := events ++ [.lsupdateSendNeighbor on], timers := timers }
  obtain ⟨q, hmodify, hholds, hfault, hdbs⟩ := modifyNeighbor_run
    (f := fun n => { n with threadSendLsupdate := some (.lsupdateSendNeighbor on) }) (fun _ => rfl)
    (show s₁.Holds on n from hn) x.2
  have hquiet : Quiet x (q, x.2) := ⟨hdbs, le_rfl, fun _ _ => rfl, 0, fun _ => rfl⟩
  refine ⟨(q, x.2), ?_, hfault.trans hx.fault, fun k => ?_, ?_⟩
  · unfold lsreqSchedule
    rw [Prog.run_bind hfit, Prog.run_bind (theNeighbor_run hn x.2), Prog.run_bind hrun]
    exact hmodify
  · exact contentsOf_neighbor hquiet hx.filed (by rw [get_neighbor hholds, get_neighbor hn]; rfl) k
  · have hevents : q.events = events ++ [.lsupdateSendNeighbor on] :=
      congrArg (fun r => r.2.1.events) hmodify.symm
    have hnew : ([Thread.lsupdateSendNeighbor on]).count (.badLsreq on) = 0 := by simp
    show q.events.count _ ≤ _
    rw [hevents, List.count_append, hnew]
    exact hcount

omit [RouteCalc ρ] in
theorem Answered.of_perm {ks ks' : List LsaKey} (h : Answered on ks x y) (hperm : ks.Perm ks') : Answered on ks' x y :=
  ⟨h.fault, fun k => (h.queued k).trans (if_congr hperm.mem_iff rfl rfl), h.badLsreq⟩

omit [RouteCalc ρ] in
theorem Serves.at_clock (h : Serves on (s, m)) (clock : Nat → Timeval) : Serves on (s, { m with clock := clock }) :=
  ⟨⟨h.filed.listed, h.filed.ordered, h.filed.tagged, h.filed.stored⟩, h.fault, h.holds⟩

/-- An LSReq that asks for an area LSA or an AS-external LSA first is not answered. -/
theorem not_answered_of_scope (hx : Serves on x) (hframe : IsLsreq on.routerId frame) {k : LsaKey} {ks : List LsaKey}
    (hks : requestedKeys frame = k :: ks) (hscope : lsaScope k.type ≠ .linklocal) (hres : lsaScope k.type ≠ .reserved) :
    ¬ Answered on (requestedKeys frame) x (lsreqRecv on.oi frame x.1 x.2).2 := by
  obtain ⟨n, hn⟩ := hx.holds
  have hlookup : (lsdbLookup k none : M ρ (Option Addr)) x.1 x.2 = (none, x.1, x.2) := rfl
  have hloop : lsreqLoop on none (k :: ks) x.1 x.2 =
      (false, { x.1 with events := x.1.events ++ [.badLsreq on] }, x.2) := by
    rw [lsreqLoop, if_neg hres, if_neg hscope, Prog.run_bind hlookup]
    rfl
  intro h
  have hcount := h.badLsreq
  rw [lsreqRecv_run hn hframe, hks, Prog.run_bind hloop] at hcount
  have hone : (x.1.events ++ [Thread.badLsreq on]).count (.badLsreq on) ≤ x.1.events.count (.badLsreq on) := hcount
  rw [List.count_append, List.count_singleton_self] at hone
  omega

/-- Where an LSReq asks for LSAs that are all in the databases of their scopes, these are queued, in whatever order and at
whatever time they are asked for, if and only if they are all of link-local scope and none of them is without a body and
asked for twice or queued already. -/
theorem answeredInAnyOrder_iff (hx : Serves on (s, m)) (hframe : IsLsreq on.routerId frame)
    (hown : ∀ k ∈ requestedKeys frame, (ownContents (s, m) on k).isSome = true) :
    AnsweredInAnyOrder on (requestedKeys frame) s m ↔ Answerable on (requestedKeys frame) (s, m) := by
  obtain ⟨n, hn⟩ := hx.holds
  constructor
  · intro h k hk
    have hscope : ∀ k ∈ requestedKeys frame, lsaScope k.type = .linklocal := by
      intro k hk
      by_contra hscope
      have hres : lsaScope k.type ≠ .reserved := by
        intro hres
        have hmine := hown k hk
        rw [ownContents, State.lsdbFor, hres] at hmine
        cases hmine
      -- the same LSAs with this one first
      have hperm := List.perm_cons_erase hk
      have hroom : 16 + 12 * (k :: (requestedKeys frame).erase k).length < 2 ^ 16 :=
        hperm.length_eq ▸ room_requestedKeys hframe.span
      have hkeys := requestedKeys_lsreqFrame on.routerId hroom
      have hfirst := isLsreq_lsreqFrame on.routerId hroom
      generalize lsreqFrame on.routerId (k :: (requestedKeys frame).erase k) = frame' at hkeys hfirst
      have hanswered := h m.clock frame' hfirst (by rw [hkeys]; exact hperm.symm)
      exact not_answered_of_scope hx hfirst hkeys hscope hres (hanswered.of_perm (by rw [hkeys]; exact hperm))
    refine ⟨hscope k hk, fun own hmine hle => ?_⟩
    by_contra hnot
    have hmine' := hmine
    rw [Option.mem_def, ownContents_linklocal (hscope k hk), contentsOf, Option.map_eq_some_iff] at hmine'
    obtain ⟨a, ha, rfl⟩ := hmine'
    -- a time at which neither of the two has an age
    have hlate : ∃ t, ∀ b, copyOf (s, m) (.interface on.oi) k = some b ∨
      copyOf (s, m) (.neighbor on .lsupdateList) k = some b →
        (m.lsa b).ageAt t = maxage := by
      cases hqueued : copyOf (s, m) (.neighbor on .lsupdateList) k with
      | none =>
          obtain ⟨t, ht, -⟩ := exists_late (m.lsa a) (m.lsa a)
          refine ⟨t, fun b hb => ?_⟩
          obtain hb | hb := hb
          · exact Option.some.inj (ha.symm.trans hb) ▸ ht
          · cases hb
      | some c =>
          obtain ⟨t, ht, ht'⟩ := exists_late (m.lsa a) (m.lsa c)
          refine ⟨t, fun b hb => ?_⟩
          obtain hb | hb := hb
          · exact Option.some.inj (ha.symm.trans hb) ▸ ht
          · exact Option.some.inj hb ▸ ht'
    obtain ⟨t, ht⟩ := hlate
    have hanswered := h (fun _ => t) frame hframe (List.Perm.refl _)
    have hbad : k ∈ requestedKeys frame ∧ (∃ old ∈ queuedAt (s, m) on k, old.1.length = (m.lsa a).header.length) ∨
        2 ≤ (requestedKeys frame).count k := by
      by_cases hcount : (requestedKeys frame).count k = 1
      · refine .inl ⟨hk, ?_⟩
        by_contra hnone
        exact hnot ⟨hcount, fun old hold hlength => hnone ⟨old, hold, hlength⟩⟩
      · have hpos := List.count_pos_iff.mpr hk
        exact .inr (by omega)
    have hfault := lsreqLoop_faults none (x := (s, { m with clock := fun _ => t })) (hx.at_clock _).filed ⟨n, hn⟩
      (fun _ => rfl) hscope hown ht hmine hle hbad
    have hstill := hanswered.fault
    rw [lsreqRecv_run (x := (s, { m with clock := fun _ => t })) hn hframe] at hstill
    have hsticky : Within (Keeping Faulted) (lsreqSchedule on frame : M ρ Unit) := by
      refine .bind (plain_faulted.assert _) fun _ => .bind (plain_faulted.theNeighbor on) fun n => ?_
      exact .bind (climbs_faulted.off _) fun _ => fun _ _ h => h
    generalize hr : (lsreqLoop on none (requestedKeys frame) s
      { m with clock := fun _ => t } : Bool × State ρ × Mem) = r at hfault
    obtain ⟨atEnd, y⟩ := r
    rw [Prog.run_bind hr] at hstill
    have hfaulted : ((if atEnd = true then lsreqSchedule on frame else pure () : M ρ Unit) y.1 y.2).2.1.fault = true :=
      (Within.ite hsticky (.pure _) : Within (Keeping Faulted) _) y.1 y.2 hfault
    rw [hstill] at hfaulted
    cases hfaulted
  · intro h clock frame' hframe' hperm
    have hx' := hx.at_clock clock
    have hks : Answerable on (requestedKeys frame') (s, { m with clock := clock }) := by
      intro k hk
      obtain ⟨hscope, hbare⟩ := h k (hperm.mem_iff.mp hk)
      refine ⟨hscope, fun own hmine hle => ?_⟩
      rw [hperm.count_eq]
      exact hbare own hmine hle
    obtain ⟨y, hrun, hy, hevents, hqueued⟩ := lsreqLoop_answers none hx' hks fun k hk =>
      hown k (hperm.mem_iff.mp hk)
    obtain ⟨z, hschedule, hfault, hsame, hcount⟩ := lsreqSchedule_run hy hframe'
    rw [lsreqRecv_run (x := (s, { m with clock := clock })) hn hframe', Prog.run_bind hrun, if_pos rfl, hschedule]
    refine ⟨hfault, fun k => ?_, hcount.trans (le_of_eq (by rw [hevents]))⟩
    rw [hsame, hqueued]
    exact if_congr hperm.mem_iff rfl rfl

end Answer

/-! ### A request for an area LSA

The Router-LSA of router 3 is in the database of the area, and neighbor 2 asks for it. -/

section Asking

theorem describing_row {as : List Addr} (h : describing.1.Row as) : as = [] ∨ as = [0] := by
  obtain h | ⟨o, ho, h⟩ | ⟨i, hi, h⟩ := h
  · exact .inl h
  · obtain rfl := List.mem_singleton.mp ho
    exact h.elim .inr .inl
  · obtain rfl := List.mem_singleton.mp hi
    obtain h | h | h | h | ⟨n, hn, list, h⟩ := h
    · exact .inl h
    · exact .inl h
    · exact .inl h
    · exact .inl h
    · obtain rfl := List.mem_singleton.mp hn
      cases list <;> exact .inl h

theorem describing_serves : Serves ⟨0, 2⟩ describing where
  filed := by
    refine ⟨fun a ⟨as, hrow, ha⟩ => ?_, fun as hrow => ?_, fun a d ha => ?_, fun d hd a ha => ?_⟩
    · obtain rfl | rfl := describing_row hrow
      · exact absurd ha List.not_mem_nil
      · exact (List.mem_singleton.mp ha).symm ▸ Nat.zero_lt_one
    · obtain rfl | rfl := describing_row hrow
      · exact List.Pairwise.nil
      · exact List.pairwise_singleton _ _
    · have hnone : (describing.2.lsa a).lsdb = none := by cases a <;> rfl
      rw [hnone] at ha
      cases ha
    · cases d with
      | interface oi =>
          cases oi with
          | zero => exact absurd (show a ∈ [] from ha) List.not_mem_nil
          | succ oi => exact absurd ha List.not_mem_nil
      | area oa =>
          cases oa with
          | zero =>
              obtain rfl := List.mem_singleton.mp ha
              exact (by decide : lsaScope lstypeRouter = .area)
          | succ oa => exact absurd ha List.not_mem_nil
      | as => exact absurd ha List.not_mem_nil
      | _ => exact hd.elim
  fault := rfl
  holds := ⟨_, rfl⟩

/-- The request. -/
def askingFrame : List UInt8 := lsreqFrame 2 [⟨lstypeRouter, 0, 3⟩]

theorem askingFrame_isLsreq : IsLsreq 2 askingFrame := isLsreq_lsreqFrame 2 (by decide)

theorem askingFrame_keys : requestedKeys askingFrame = [⟨lstypeRouter, 0, 3⟩] := requestedKeys_lsreqFrame 2 (by decide)

theorem askingFrame_own : ∀ k ∈ requestedKeys askingFrame, (ownContents describing ⟨0, 2⟩ k).isSome = true := by
  intro k hk
  rw [askingFrame_keys] at hk
  obtain rfl := List.mem_singleton.mp hk
  decide

theorem answeredInAnyOrder_iff_describing :
    AnsweredInAnyOrder ⟨0, 2⟩ (requestedKeys askingFrame) describing.1 describing.2 ↔
      Answerable ⟨0, 2⟩ (requestedKeys askingFrame) describing :=
  answeredInAnyOrder_iff describing_serves askingFrame_isLsreq askingFrame_own

/-- The Router-LSA is not found for want of a database, and `bad_lsreq` is scheduled. -/
theorem not_answeredInAnyOrder : ¬ ∀ (on : NbrRef) (frame : List UInt8) (s : State Unit) (m : Mem), Serves on (s, m) →
    IsLsreq on.routerId frame → (∀ k ∈ requestedKeys frame, (ownContents (s, m) on k).isSome = true) →
      AnsweredInAnyOrder on (requestedKeys frame) s m := by
  intro h
  have hanswered := h ⟨0, 2⟩ askingFrame describing.1 describing.2 describing_serves askingFrame_isLsreq askingFrame_own
    describing.2.clock askingFrame askingFrame_isLsreq (List.Perm.refl _)
  exact not_answered_of_scope describing_serves askingFrame_isLsreq askingFrame_keys (by decide) (by decide) hanswered

end Asking

end Harry.Sibling
