import Mathlib.Data.Prod.Lex
import Harry.SiblingFrames

/-! The link state databases of a sibling and `ospf6_receive_lsa`. Whatever else the reception of an LSA does, to the
lists of the neighbors, to the queues of the interfaces and to the schedule, it leaves the databases alone; this is
`Quiet`. -/

namespace Harry.Sibling

open Harry.Base Harry.Rfp Prog

variable {ρ : Type}

/-- What of an LSA is there for good once the LSA is in a database. -/
def Lsa.core (l : Lsa) : LsaHeader × List UInt8 × Option Lsdb × Timeval :=
  (l.header, l.body, l.lsdb, l.installed)

/-- The databases with a scope: of the interfaces, each with the area that it is in, of the areas, and the one of the
autonomous system. -/
def State.databases (s : State ρ) : List (Nat × List Addr) × List (List Addr) × List Addr :=
  (s.interfaces.map fun i => (i.area, i.lsdb), s.areaList.map fun a => a.lsdb, s.lsdb)

/-- The databases are left alone, and so are the LSAs; there may be new ones, and the clock may have been read. -/
structure Quiet (x y : State ρ × Mem) : Prop where
  databases : y.1.databases = x.1.databases
  length : x.2.heap.length ≤ y.2.heap.length
  core : ∀ a < x.2.heap.length, (y.2.lsa a).core = (x.2.lsa a).core
  clock : ∃ k, ∀ n, y.2.clock n = x.2.clock (n + k)

instance : Frame (Quiet (ρ := ρ)) where
  refl _ := ⟨rfl, le_rfl, fun _ _ => rfl, 0, fun _ => rfl⟩
  trans h h' := by
    obtain ⟨k, hk⟩ := h.clock
    obtain ⟨k', hk'⟩ := h'.clock
    refine ⟨h'.databases.trans h.databases, h.length.trans h'.length, fun a ha => ?_, k' + k, fun n => ?_⟩
    · exact (h'.core a (ha.trans_le h.length)).trans (h.core a ha)
    · rw [hk', hk, Nat.add_assoc]

section Quiet

theorem quiet_state {f : State ρ → State ρ} (h : ∀ s, (f s).databases = s.databases) :
    Within Quiet (modify f : M ρ Unit) :=
  .modify fun s _ => ⟨h s, le_rfl, fun _ _ => rfl, 0, fun _ => rfl⟩

theorem quiet_fail : Within Quiet (fail : M ρ Unit) := quiet_state fun _ => rfl

theorem quiet_assert (b : Bool) : Within Quiet (assert b : M ρ Unit) := .ite (.pure _) quiet_fail

theorem quiet_theInterface (oi : Nat) : Within Quiet (theInterface oi : M ρ Interface) := by
  refine .bind .observe fun s => ?_
  cases s.interfaces[oi]? with
  | none => exact .bind quiet_fail fun _ => .pure _
  | some i => exact .pure i

theorem quiet_theArea (oa : Nat) : Within Quiet (theArea oa : M ρ Area) := by
  refine .bind .observe fun s => ?_
  cases s.areaList[oa]? with
  | none => exact .bind quiet_fail fun _ => .pure _
  | some a => exact .pure a

theorem quiet_theNeighbor (on : NbrRef) : Within Quiet (theNeighbor on : M ρ Neighbor) := by
  refine .bind .observe fun s => ?_
  cases s.interfaces[on.oi]?.bind (·.neighborLookup on.routerId) with
  | none => exact .bind quiet_fail fun _ => .pure _
  | some n => exact .pure n

theorem quiet_hostnumOf (i : Interface) : Within Quiet (hostnumOf i : M ρ UInt32) := by
  refine .bind .observe fun s => ?_
  cases s.ctrlClients[i.ctrlClient]? with
  | none => exact .bind quiet_fail fun _ => .pure _
  | some c => exact .pure _

theorem map_modify_of_eq {α β : Type} {g : α → β} {f : α → α} (h : ∀ a, g (f a) = g a) (l : List α) (i : Nat) :
    (l.modify i f).map g = l.map g := by
  refine List.ext_getElem? fun j => ?_
  simp only [List.getElem?_map, List.getElem?_modify]
  cases l[j]? with
  | none => rfl
  | some a =>
      by_cases hij : i = j
      · simp [hij, h]
      · simp [hij]

theorem quiet_modifyInterface (oi : Nat) {f : Interface → Interface}
    (h : ∀ i, ((f i).area, (f i).lsdb) = (i.area, i.lsdb)) :
    Within Quiet (modifyInterface oi f : M ρ Unit) :=
  quiet_state fun s => congrArg (·, _) (map_modify_of_eq h s.interfaces oi)

theorem quiet_modifyArea (oa : Nat) {f : Area → Area} (h : ∀ a, (f a).lsdb = a.lsdb) :
    Within Quiet (modifyArea oa f : M ρ Unit) :=
  quiet_state fun s => congrArg (fun l => (_, l, _)) (map_modify_of_eq h s.areaList oa)

theorem quiet_modifyNeighbor (on : NbrRef) (f : Neighbor → Neighbor) : Within Quiet (modifyNeighbor on f : M ρ Unit) :=
  quiet_modifyInterface _ fun _ => rfl

theorem quiet_emit (o : Output) : Within Quiet (emit o : M ρ Unit) :=
  quiet_state fun s => by split <;> rfl

theorem quiet_threadAddEvent (t : Thread) : Within Quiet (threadAddEvent t : M ρ Unit) := quiet_state fun _ => rfl

theorem quiet_threadAddTimer (t : Thread) : Within Quiet (threadAddTimer t : M ρ Unit) := quiet_state fun _ => rfl

theorem quiet_sendNext (client : Nat) (type : RfpType) (body : List UInt8) :
    Within Quiet (sendNext client type body : M ρ Unit) := by
  refine .bind .observe fun s => ?_
  cases s.ctrlClients[client]? with
  | none => exact quiet_fail
  | some c => exact .bind (quiet_emit _) fun _ => quiet_state fun _ => rfl

theorem quiet_routeSets (reqs : List (Nat × List UInt8)) : Within Quiet (routeSets reqs : M ρ Unit) :=
  .forM fun _ _ => quiet_sendNext _ _ _

theorem quiet_routeCalc (calculated : Exec (Nat × List UInt8) ρ) : Within Quiet (routeCalc calculated : M ρ Unit) := by
  refine .bind (quiet_routeSets _) fun _ => ?_
  cases calculated.result with
  | none => exact quiet_fail
  | some routes => exact quiet_state fun _ => rfl

theorem quiet_spfSchedule (oa : Nat) (hostnum : UInt32) : Within Quiet (spfSchedule oa hostnum : M ρ Unit) :=
  .bind (quiet_theArea oa) fun _ => .ite (.pure _) <|
    .bind (quiet_threadAddEvent _) fun _ => quiet_modifyArea _ fun _ => rfl

theorem quiet_intraPrefixLsaScheduleTransit (oi : Nat) : Within Quiet (intraPrefixLsaScheduleTransit oi : M ρ Unit) :=
  .bind (quiet_theInterface oi) fun _ => .ite (.pure _) <|
    .bind (quiet_threadAddEvent _) fun _ => quiet_modifyInterface _ fun _ => rfl

theorem quiet_read {α : Type} (f : Mem → α) : Within Quiet (hidden fun m => (f m, m) : M ρ α) :=
  .hidden fun _ _ => ⟨rfl, le_rfl, fun _ _ => rfl, 0, fun _ => rfl⟩

theorem quiet_gettime : Within Quiet (gettime : M ρ Timeval) :=
  .hidden fun _ _ => ⟨rfl, le_rfl, fun _ _ => rfl, 1, fun _ => rfl⟩

theorem core_update {m : Mem} {a : Addr} {f : Lsa → Lsa} (hf : ∀ l, (f l).core = l.core) (b : Addr) :
    ((m.update a f).lsa b).core = (m.lsa b).core := by
  rw [lsa_update]
  split
  · exact hf _
  · rfl

theorem quiet_hiddenUpdate {α : Type} (v : Mem → α) (a : Addr) {f : Mem → Lsa → Lsa} (hf : ∀ m l, (f m l).core = l.core) :
    Within Quiet (hidden fun m => (v m, m.update a (f m)) : M ρ α) :=
  .hidden fun _ m => ⟨rfl, by simp [Mem.update], fun b _ => core_update (hf m) b, 0, fun _ => rfl⟩

theorem quiet_modifyInfo (a : Addr) {f : LsaInfo → LsaInfo}
    (hf : ∀ l, ((f l).header, (f l).body, (f l).lsdb) = (l.header, l.body, l.lsdb)) :
    Within Quiet (modifyInfo a f : M ρ Unit) :=
  quiet_hiddenUpdate _ a fun _ l => by
    have h := hf l.toLsaInfo
    simp only [Prod.mk.injEq] at h
    simp only [Lsa.core, h]

theorem quiet_infos : Within Quiet (infos : M ρ (Addr → LsaInfo)) := quiet_read _

theorem quiet_keys : Within Quiet (keys : M ρ (Addr → Option LsaKey)) := quiet_read _

theorem quiet_info (a : Addr) : Within Quiet (info a : M ρ LsaInfo) := .bind quiet_infos fun _ => .pure _

theorem quiet_ageCurrent (a : Addr) : Within Quiet (ageCurrent a : M ρ UInt16) :=
  .bind quiet_gettime fun _ => quiet_hiddenUpdate _ a fun _ _ => rfl

theorem quiet_isMaxage (a : Addr) : Within Quiet (isMaxage a : M ρ Bool) := .bind (quiet_ageCurrent a) fun _ => .pure _

theorem quiet_compareAges (a b : Addr) : Within Quiet (compareAges a b : M ρ Int) :=
  .bind (quiet_ageCurrent a) fun _ => .bind (quiet_ageCurrent b) fun _ => .pure _

theorem quiet_lsaCompare (a b : Addr) : Within Quiet (lsaCompare a b : M ρ Int) :=
  .bind quiet_infos fun _ => .bind (quiet_assert _) fun _ => .ite (.pure _) <| .ite (.pure _) <| .ite (.pure _) <|
    .ite (.pure _) (quiet_compareAges a b)

theorem quiet_lsaIsChanged (a b : Addr) : Within Quiet (lsaIsChanged a b : M ρ Bool) :=
  .bind (quiet_isMaxage a) fun _ => .bind (quiet_isMaxage b) fun _ => .bind quiet_infos fun _ => .ite (.pure _) <|
    .ite (.pure _) <| .bind (quiet_assert _) fun _ => .pure _

theorem quiet_push (f : Mem → Lsa) : Within Quiet (hidden fun m => (m.heap.length, m.push (f m)) : M ρ Addr) :=
  .hidden fun _ m => ⟨rfl, by simp [Mem.push], fun a ha => by rw [lsa_push, if_neg ha.ne], 0, fun _ => rfl⟩

theorem quiet_lsaCopy (a : Addr) : Within Quiet (lsaCopy a : M ρ Addr) :=
  .bind (quiet_ageCurrent a) fun _ => quiet_push _

/-- A database with a scope: what is flooded is installed there. -/
def Lsdb.Scoped : Lsdb → Prop
  | .interface _ | .area _ | .as => True
  | _ => False

theorem quiet_lsdbLookup (key : LsaKey) (db : Option Lsdb) : Within Quiet (lsdbLookup key db : M ρ (Option Addr)) := by
  cases db with
  | none => exact .pure _
  | some db => exact .bind .observe fun _ => .bind quiet_keys fun _ => .pure _

theorem quiet_put (as : List Addr) {db : Lsdb} (h : ¬ db.Scoped) : Within Quiet (db.put as : M ρ Unit) := by
  cases db with
  | interface oi => exact absurd trivial h
  | area oa => exact absurd trivial h
  | as => exact absurd trivial h
  | interfaceSelf oi => exact quiet_modifyInterface oi fun _ => rfl
  | interfaceLsupdate oi => exact quiet_modifyInterface oi fun _ => rfl
  | interfaceLsack oi => exact quiet_modifyInterface oi fun _ => rfl
  | areaSelf oa => exact quiet_modifyArea oa fun _ => rfl
  | neighbor on list => exact quiet_modifyNeighbor on _

theorem quiet_interfaceLsdbHook (oi : Nat) (a : Addr) : Within Quiet (interfaceLsdbHook oi a : M ρ Unit) := by
  refine .bind (quiet_info a) fun l => .ite ?_ (.pure _)
  refine .bind (quiet_theInterface oi) fun i => .bind (.when (quiet_intraPrefixLsaScheduleTransit oi)) fun _ => ?_
  exact .bind (quiet_hostnumOf i) fun _ => quiet_spfSchedule _ _

theorem quiet_hookRemove (db : Lsdb) (a : Addr) : Within Quiet (hookRemove db a : M ρ Unit) := by
  cases db with
  | interface oi => exact quiet_interfaceLsdbHook oi a
  | area oa => exact .bind (quiet_info a) fun _ => .ite (quiet_spfSchedule _ _) (.pure _)
  | _ => exact .pure _

theorem quiet_lsdbRemove (a : Addr) {db : Lsdb} (h : ¬ db.Scoped) : Within Quiet (lsdbRemove a db : M ρ Unit) :=
  .bind .observe fun _ => .bind (quiet_assert _) fun _ => .bind (quiet_put _ h) fun _ => quiet_hookRemove db a

/-- No original is ever found, for want of a scoped database. -/
theorem quiet_decrementRetransCount (a : Addr) : Within Quiet (decrementRetransCount a : M ρ Unit) :=
  .bind (quiet_info a) fun _ => (Within.pure () : Within Quiet (pure () : M ρ Unit))

theorem quiet_examineRequest (a : Addr) (on : NbrRef) : Within Quiet (examineRequest a on : M ρ Bool) := by
  refine .bind (quiet_info a) fun l => .bind (quiet_lsdbLookup _ _) fun req => ?_
  cases req with
  | none => exact .pure _
  | some req =>
      refine .bind (quiet_lsaCompare a req) fun _ => .ite (.pure _) ?_
      refine .bind (quiet_lsaCompare a req) fun _ => .ite ?_ ?_
      · exact .bind (quiet_lsdbRemove req id) fun _ => .pure _
      · exact .bind (quiet_lsaCompare a req) fun _ => .bind (.when (quiet_lsdbRemove req id)) fun _ => .pure _

theorem quiet_impliedAck (sender : NbrRef) (new : Addr) (rem : Option Addr) :
    Within Quiet (impliedAck sender new rem : M ρ Unit) := by
  cases rem with
  | none => exact .pure _
  | some rem =>
      refine .bind (quiet_modifyInfo new fun _ => rfl) fun _ => .bind (quiet_decrementRetransCount rem) fun _ => ?_
      exact quiet_lsdbRemove rem id

variable [RouteCalc ρ]

theorem quiet_intraPrefixLsaAdd (oa : Nat) (a : Addr) : Within Quiet (intraPrefixLsaAdd oa a : M ρ Unit) := by
  refine .bind (quiet_isMaxage a) fun old => .ite (.pure _) ?_
  exact .bind (quiet_info a) fun l => .bind .observe fun s => quiet_routeCalc _

theorem quiet_hookAdd (db : Lsdb) (a : Addr) : Within Quiet (hookAdd db a : M ρ Unit) := by
  cases db with
  | interface oi => exact quiet_interfaceLsdbHook oi a
  | area oa =>
      exact .bind (quiet_info a) fun _ => .ite (quiet_spfSchedule _ _) <| .ite (quiet_intraPrefixLsaAdd oa a) (.pure _)
  | _ => exact .pure _

theorem quiet_hookChange (db : Lsdb) (old a : Addr) : Within Quiet (hookChange db old a : M ρ Unit) :=
  .bind (quiet_isMaxage a) fun _ => .ite (.bind (quiet_hookRemove db old) fun _ => quiet_hookRemove db a) <|
    .bind (quiet_isMaxage old) fun _ => .ite (quiet_hookAdd db a) <|
      .bind (quiet_hookRemove db old) fun _ => quiet_hookAdd db a

theorem quiet_hookReplace (db : Lsdb) (old a : Addr) : Within Quiet (hookReplace db old a : M ρ Unit) :=
  .bind (quiet_lsaIsChanged old a) fun _ => .when (quiet_hookChange db old a)

theorem quiet_hookInsert (db : Lsdb) (a : Addr) : Within Quiet (hookInsert db a : M ρ Unit) :=
  .bind (quiet_isMaxage a) fun _ => .ite (quiet_hookRemove db a) (quiet_hookAdd db a)

theorem quiet_lsdbAdd (a : Addr) {db : Lsdb} (h : ¬ db.Scoped) : Within Quiet (lsdbAdd a db : M ρ Unit) := by
  refine .bind .observe fun s => .bind quiet_keys fun keyOf => .bind (quiet_put _ h) fun _ => ?_
  cases (insertLsa keyOf a (db.get s)).2 with
  | none => exact quiet_hookInsert db a
  | some old => exact quiet_hookReplace db old a

theorem quiet_floodNeighbor (sender : Option NbrRef) (a : Addr) (on : NbrRef) :
    Within Quiet (floodNeighbor sender a on : M ρ Bool) := by
  refine .bind (quiet_theNeighbor on) fun n => .ite (.pure _) ?_
  refine .bind (.ite (quiet_examineRequest a on) (.pure _)) fun goOn => .ite (.pure _) ?_
  refine .bind (quiet_modifyInfo a fun _ => rfl) fun _ => .bind (quiet_lsaCopy a) fun copy => ?_
  refine .bind (quiet_lsdbAdd copy id) fun _ => .bind (.when ?_) fun _ => .pure _
  exact .bind (quiet_threadAddTimer _) fun _ => quiet_modifyNeighbor on _

theorem quiet_floodNeighbors (sender : Option NbrRef) (a : Addr) (ons : List NbrRef) (n : Int) :
    Within Quiet (floodNeighbors sender a ons n : M ρ Int) := by
  induction ons generalizing n with
  | nil => exact .pure _
  | cons on ons ih => exact .bind (quiet_floodNeighbor sender a on) fun _ => ih _

theorem quiet_floodInterface (sender : Option NbrRef) (a : Addr) (oi : Nat) :
    Within Quiet (floodInterface sender a oi : M ρ Unit) := by
  refine .bind (quiet_theInterface oi) fun i => .bind .observe fun s => .bind (quiet_floodNeighbors _ _ _ _) fun n => ?_
  refine .ite (.pure _) <| .ite (.pure _) <| .ite (.pure _) ?_
  refine .bind (quiet_lsaCopy a) fun copy => .bind (quiet_lsdbAdd copy id) fun _ => .when ?_
  exact .bind (quiet_threadAddEvent _) fun _ => quiet_modifyInterface oi fun _ => rfl

theorem quiet_flood (sender : Option NbrRef) (a : Addr) : Within Quiet (flood sender a : M ρ Unit) := by
  refine .bind (quiet_info a) fun l => .bind .observe fun s => .forM fun oa _ => .bind (quiet_theArea oa) fun area => ?_
  refine .ite (.pure _) <| .ite (.pure _) <| .bind (quiet_info a) fun _ => .bind (quiet_theArea oa) fun _ => ?_
  exact .forM fun oi _ => .ite (.pure _) (quiet_floodInterface sender a oi)

theorem quiet_acknowledgeDelayed (a : Addr) (oi : Nat) : Within Quiet (acknowledgeDelayed a oi : M ρ Unit) := by
  refine .bind (quiet_lsaCopy a) fun copy => .bind (quiet_lsdbAdd copy id) fun _ => ?_
  refine .bind (quiet_theInterface oi) fun i => .when (.bind (quiet_threadAddTimer _) fun _ => ?_)
  exact quiet_modifyInterface oi fun _ => rfl

theorem quiet_acknowledgeDirect (a : Addr) (sender : NbrRef) : Within Quiet (acknowledgeDirect a sender : M ρ Unit) := by
  refine .bind (quiet_lsaCopy a) fun copy => .bind (quiet_lsdbAdd copy id) fun _ => ?_
  refine .bind (quiet_theNeighbor sender) fun n => .when (.bind (quiet_threadAddEvent _) fun _ => ?_)
  exact quiet_modifyNeighbor sender _

theorem quiet_acknowledgeLsa (a : Addr) (ismoreRecent : Int) (sender : NbrRef) :
    Within Quiet (acknowledgeLsa a ismoreRecent sender : M ρ Unit) := by
  refine .bind (quiet_theInterface sender.oi) fun i => .ite ?_ ?_
  · refine .bind (quiet_info a) fun l => .bind (quiet_theInterface sender.oi) fun i => .ite (.pure _) ?_
    refine .ite (.ite (quiet_acknowledgeDelayed _ _) (.pure _)) ?_
    exact .ite (.ite (quiet_acknowledgeDelayed _ _) (.pure _)) (.ite (quiet_acknowledgeDirect _ _) (.pure _))
  · refine .bind (quiet_info a) fun l => .ite (.pure _) ?_
    exact .ite (quiet_acknowledgeDelayed _ _) (.ite (.pure _) (.ite (quiet_acknowledgeDirect _ _) (.pure _)))

theorem quiet_receiveOlder (sender : NbrRef) (new old : Addr) (ismoreRecent : Int) :
    Within Quiet (receiveOlder sender new old ismoreRecent : M ρ Unit) := by
  refine .bind (quiet_info new) fun l => .bind (quiet_lsdbLookup _ _) fun req => .ite (quiet_threadAddEvent _) ?_
  refine .ite ?_ (.bind (quiet_isMaxage old) fun _ => .bind (quiet_info old) fun o => .ite (.pure _) ?_)
  · refine .bind (quiet_lsdbLookup _ _) fun rem => .bind (quiet_impliedAck sender new rem) fun _ => ?_
    exact quiet_acknowledgeLsa new ismoreRecent sender
  · refine .bind (quiet_lsaCopy old) fun copy => .bind (quiet_lsdbAdd copy id) fun _ => ?_
    refine .bind (quiet_theNeighbor sender) fun n => .when (.bind (quiet_threadAddEvent _) fun _ => ?_)
    exact quiet_modifyNeighbor sender _

end Quiet

/-! ### Database copies -/

section Copies

variable {x y z : State ρ × Mem} {d : Lsdb} {k : LsaKey} {new : Addr}

/-- The database copy of an LSA. -/
def copyOf (x : State ρ × Mem) (d : Lsdb) (k : LsaKey) : Option Addr :=
  (d.get x.1).find? fun a => x.2.key a == some k

/-- What is in a database is there. -/
def Valid (x : State ρ × Mem) : Prop :=
  ∀ d : Lsdb, d.Scoped → ∀ a ∈ d.get x.1, a < x.2.heap.length

/-- A database that a sibling has. -/
def Lsdb.In (s : State ρ) : Lsdb → Prop
  | .interface oi => oi < s.interfaces.length
  | .area oa => oa < s.areaList.length
  | .as => True
  | _ => False

/-- The databases of a sibling by name. -/
def scopedGet (dbs : List (Nat × List Addr) × List (List Addr) × List Addr) : Lsdb → List Addr
  | .interface oi => (dbs.1[oi]?.map Prod.snd).getD []
  | .area oa => dbs.2.1[oa]?.getD []
  | .as => dbs.2.2
  | _ => []

theorem get_scoped (hd : d.Scoped) (s : State ρ) : d.get s = scopedGet s.databases d := by
  cases d with
  | interface oi =>
      simp only [Lsdb.get, scopedGet, State.databases, List.getD_eq_getElem?_getD, List.getElem?_map]
      cases s.interfaces[oi]? <;> rfl
  | area oa =>
      simp only [Lsdb.get, scopedGet, State.databases, List.getD_eq_getElem?_getD, List.getElem?_map]
      cases s.areaList[oa]? <;> rfl
  | as => rfl
  | _ => exact hd.elim

theorem Quiet.get (h : Quiet x y) (hd : d.Scoped) : d.get y.1 = d.get x.1 := by
  rw [get_scoped hd, get_scoped hd, h.databases]

theorem Quiet.key (h : Quiet x y) {a : Addr} (ha : a < x.2.heap.length) : y.2.key a = x.2.key a := by
  have hcore := h.core a ha
  simp only [Lsa.core, Prod.mk.injEq] at hcore
  rw [Mem.key, Mem.key, if_pos ha, if_pos (ha.trans_le h.length), hcore.1]

theorem Quiet.valid (h : Quiet x y) (hx : Valid x) : Valid y := by
  intro d hd a ha
  rw [h.get hd] at ha
  exact (hx d hd a ha).trans_le h.length

theorem find?_congr {α : Type} {f g : α → Bool} {l : List α} (h : ∀ a ∈ l, f a = g a) : l.find? f = l.find? g := by
  induction l with
  | nil => rfl
  | cons a l ih =>
      rw [List.find?_cons, List.find?_cons, h a List.mem_cons_self, ih fun b hb => h b (List.mem_cons_of_mem a hb)]

theorem Quiet.copyOf (h : Quiet x y) (hx : Valid x) (hd : d.Scoped) (k : LsaKey) :
    Sibling.copyOf y d k = Sibling.copyOf x d k := by
  rw [Sibling.copyOf, Sibling.copyOf, h.get hd]
  refine find?_congr fun a ha => ?_
  rw [h.key (hx d hd a ha)]

/-- A database in which an LSA has been put has it under its key, and the others as they were. -/
theorem find?_insertLsa {key : Addr → Option LsaKey} (hnew : key new = some k) (l : List Addr) (j : LsaKey) :
    (insertLsa key new l).1.find? (fun a => key a == some j) =
      if k = j then some new else l.find? fun a => key a == some j := by
  have hself : (key new == some j) = decide (k = j) := by
    rw [hnew]
    by_cases hkj : k = j <;> simp [hkj]
  induction l with
  | nil =>
      rw [insertLsa, List.find?_cons, hself]
      by_cases hkj : k = j <;> simp [hkj]
  | cons b l ih =>
      rw [insertLsa]
      by_cases hb : key b = key new
      · rw [if_pos hb, List.find?_cons, List.find?_cons, hb, hself]
        by_cases hkj : k = j <;> simp [hkj]
      · rw [if_neg hb]
        split_ifs with hbefore hkj hkj
        · rw [List.find?_cons, hself, decide_eq_true hkj]
        · rw [List.find?_cons, hself, decide_eq_false hkj]
        · have hne : (key b == some j) = false := by
            rw [hnew, hkj] at hb
            simpa using hb
          simp only [List.find?_cons, hne, ih, if_pos hkj]
        · simp only [List.find?_cons, ih, if_neg hkj]

theorem mem_insertLsa {key : Addr → Option LsaKey} {l : List Addr} {a : Addr} (h : a ∈ (insertLsa key new l).1) :
    a = new ∨ a ∈ l := by
  induction l with
  | nil => exact .inl (List.mem_singleton.mp h)
  | cons b l ih =>
      rw [insertLsa] at h
      split_ifs at h
      · exact (List.mem_cons.mp h).imp_right fun h => List.mem_cons_of_mem b h
      · exact List.mem_cons.mp h
      · obtain rfl | h := List.mem_cons.mp h
        · exact .inr List.mem_cons_self
        · exact (ih h).imp_right fun h => List.mem_cons_of_mem b h

/-- An LSA has become the database copy of its key; the others have stayed. -/
structure Installs (x : State ρ × Mem) (d : Lsdb) (new : Addr) (y : State ρ × Mem) : Prop where
  self : ∀ k, copyOf y d k = if x.2.key new = some k then some new else copyOf x d k
  others : ∀ d' k, d'.Scoped → d' ≠ d → copyOf y d' k = copyOf x d' k
  valid : Valid y
  areas : (y.1.interfaces.map fun i => i.area) = x.1.interfaces.map fun i => i.area
  areaList : y.1.areaList.length = x.1.areaList.length
  length : x.2.heap.length ≤ y.2.heap.length
  core : ∀ a < x.2.heap.length, a ≠ new → (y.2.lsa a).core = (x.2.lsa a).core
  header : (y.2.lsa new).header = (x.2.lsa new).header
  body : (y.2.lsa new).body = (x.2.lsa new).body
  installed : ∃ n, (y.2.lsa new).installed = x.2.clock n

theorem Quiet.areas (h : Quiet x y) : (y.1.interfaces.map fun i => i.area) = x.1.interfaces.map fun i => i.area := by
  have hdbs := congrArg (fun l => l.1.map Prod.fst) h.databases
  simpa only [State.databases, List.map_map, Function.comp_def] using hdbs

theorem Quiet.areaList (h : Quiet x y) : y.1.areaList.length = x.1.areaList.length := by
  have hdbs := congrArg (fun l => l.2.1.length) h.databases
  simpa only [State.databases, List.length_map] using hdbs

theorem Quiet.inside (h : Quiet x y) (hd : d.Scoped) (hin : d.In x.1) : d.In y.1 := by
  cases d with
  | interface oi =>
      have hlen := congrArg List.length h.areas
      simp only [List.length_map] at hlen
      simp only [Lsdb.In] at hin ⊢
      omega
  | area oa =>
      have hlen := h.areaList
      simp only [Lsdb.In] at hin ⊢
      omega
  | as => trivial
  | _ => exact hd.elim

theorem Quiet.header (h : Quiet x y) {a : Addr} (ha : a < x.2.heap.length) : (y.2.lsa a).header = (x.2.lsa a).header :=
  congrArg Prod.fst (h.core a ha)

theorem Quiet.body (h : Quiet x y) {a : Addr} (ha : a < x.2.heap.length) : (y.2.lsa a).body = (x.2.lsa a).body :=
  congrArg (fun c => c.2.1) (h.core a ha)

theorem Quiet.lsdb (h : Quiet x y) {a : Addr} (ha : a < x.2.heap.length) : (y.2.lsa a).lsdb = (x.2.lsa a).lsdb :=
  congrArg (fun c => c.2.2.1) (h.core a ha)

theorem Quiet.installed (h : Quiet x y) {a : Addr} (ha : a < x.2.heap.length) :
    (y.2.lsa a).installed = (x.2.lsa a).installed :=
  congrArg (fun c => c.2.2.2) (h.core a ha)

theorem Quiet.installs (h : Quiet x y) (hx : Valid x) (hd : d.Scoped) (hnew : new < x.2.heap.length)
    (h' : Installs y d new z) : Installs x d new z where
  self k := by rw [h'.self, h.key hnew, h.copyOf hx hd]
  others d' k hd' hne := (h'.others d' k hd' hne).trans (h.copyOf hx hd' k)
  valid := h'.valid
  areas := h'.areas.trans h.areas
  areaList := h'.areaList.trans h.areaList
  length := h.length.trans h'.length
  core a ha hne := (h'.core a (ha.trans_le h.length) hne).trans (h.core a ha)
  header := h'.header.trans (h.header hnew)
  body := h'.body.trans (h.body hnew)
  installed := by
    obtain ⟨n, hn⟩ := h'.installed
    obtain ⟨j, hj⟩ := h.clock
    exact ⟨n + j, hn.trans (hj n)⟩

theorem Installs.quiet (h : Installs x d new y) (hd : d.Scoped) (hnew : new < x.2.heap.length) (h' : Quiet y z) :
    Installs x d new z := by
  have hnew' := hnew.trans_le h.length
  refine ⟨fun k => (h'.copyOf h.valid hd k).trans (h.self k),
    fun d' k hd' hne => (h'.copyOf h.valid hd' k).trans (h.others d' k hd' hne), h'.valid h.valid,
    h'.areas.trans h.areas, h'.areaList.trans h.areaList, h.length.trans h'.length,
    fun a ha hne => (h'.core a (ha.trans_le h.length)).trans (h.core a ha hne), (h'.header hnew').trans h.header,
    (h'.body hnew').trans h.body, ?_⟩
  obtain ⟨n, hn⟩ := h.installed
  exact ⟨n, (h'.installed hnew').trans hn⟩

/-- A database that is put in its place is there. -/
theorem put_scoped (s : State ρ) (m : Mem) (as : List Addr) (hd : d.Scoped) (hin : d.In s) :
    ∃ s', (d.put as : M ρ Unit) s m = ((), s', m) ∧ d.get s' = as ∧
      (∀ d', d'.Scoped → d' ≠ d → d'.get s' = d'.get s) ∧
      (s'.interfaces.map fun i => i.area) = (s.interfaces.map fun i => i.area) ∧
      s'.areaList.length = s.areaList.length := by
  have hget : ∀ {α : Type} [Inhabited α] (l : List α) (f : α → α) (i j : Nat), i ≠ j →
      (l.modify i f).getD j default = l.getD j default := by
    intro α _ l f i j hij
    simp [List.getD_eq_getElem?_getD, hij]
  cases d with
  | interface oi =>
      refine ⟨{ s with interfaces := s.interfaces.modify oi fun i => { i with lsdb := as } }, rfl, ?_, ?_, ?_, rfl⟩
      · simp only [Lsdb.get, List.getD_eq_getElem?_getD, List.getElem?_modify, List.getElem?_eq_getElem hin]
        simp
      · intro d' hd' hne
        cases d' with
        | interface oi' => exact congrArg Interface.lsdb (hget _ _ _ _ fun h => hne (congrArg _ h.symm))
        | area oa => rfl
        | as => rfl
        | _ => exact hd'.elim
      · exact map_modify_of_eq (g := fun i : Interface => i.area) (f := fun i => { i with lsdb := as }) (fun _ => rfl) _ _
  | area oa =>
      refine ⟨{ s with areaList := s.areaList.modify oa fun a => { a with lsdb := as } }, rfl, ?_, ?_, rfl, ?_⟩
      · simp only [Lsdb.get, List.getD_eq_getElem?_getD, List.getElem?_modify, List.getElem?_eq_getElem hin]
        simp
      · intro d' hd' hne
        cases d' with
        | interface oi => rfl
        | area oa' => exact congrArg Area.lsdb (hget _ _ _ _ fun h => hne (congrArg _ h.symm))
        | as => rfl
        | _ => exact hd'.elim
      · exact List.length_modify _ _ _
  | as =>
      refine ⟨{ s with lsdb := as }, rfl, rfl, ?_, rfl, rfl⟩
      intro d' hd' hne
      cases d' with
      | interface oi => rfl
      | area oa => rfl
      | as => exact absurd rfl hne
      | _ => exact hd'.elim
  | _ => exact hd.elim

variable [RouteCalc ρ]

/-- `ospf6_install_lsa`. -/
theorem installLsa_installs {s : State ρ} {m : Mem} (hx : Valid (s, m)) (hnew : new < m.heap.length)
    (hdb : (m.lsa new).lsdb = some d) (hd : d.Scoped) (hin : d.In s) :
    Installs (s, m) d new (installLsa new s m).2 := by
  -- the LSA with its stamp
  let m₁ := (m.tick.refresh new).update new fun l => { l with installed := m.clock 0 }
  have hlsa : m₁.lsa new = { (m.tick.refresh new).lsa new with installed := m.clock 0 } := by
    have hlt : new < (m.tick.refresh new).heap.length := by simpa [Mem.refresh, Mem.tick, Mem.update] using hnew
    rw [lsa_update, if_pos ⟨rfl, hlt⟩]
  have hrefresh : Quiet (s, m) (s, m.tick.refresh new) :=
    Within.bind quiet_gettime (fun _ => quiet_ageCurrent new) s m
  have hlength : m₁.heap.length = m.heap.length := by simp [m₁, Mem.refresh, Mem.tick, Mem.update]
  have hcore : ∀ a < m.heap.length, a ≠ new → (m₁.lsa a).core = (m.lsa a).core := by
    intro a ha hne
    rw [lsa_update, if_neg fun h => hne h.1.symm]
    exact hrefresh.core a ha
  have hheader : (m₁.lsa new).header = (m.lsa new).header := by
    rw [hlsa]
    exact hrefresh.header hnew
  have hkey : ∀ a < m.heap.length, m₁.key a = m.key a := by
    intro a ha
    have hh : (m₁.lsa a).header = (m.lsa a).header := by
      by_cases hne : a = new
      · rw [hne, hheader]
      · exact congrArg Prod.fst (hcore a ha hne)
    rw [Mem.key, Mem.key, if_pos ha, if_pos (hlength ▸ ha), hh]
  obtain ⟨s', hput, hself, hothers, hareas, hlist⟩ :=
    put_scoped s m₁ (insertLsa m₁.key new (d.get s)).1 hd hin
  have hmem : ∀ d' : Lsdb, d'.Scoped → ∀ a ∈ d'.get s', a < m.heap.length := by
    intro d' hd' a ha
    by_cases hne : d' = d
    · subst hne
      rw [hself] at ha
      obtain rfl | ha := mem_insertLsa ha
      · exact hnew
      · exact hx d' hd' a ha
    · rw [hothers d' hd' hne] at ha
      exact hx d' hd' a ha
  have hinstalls : Installs (s, m) d new (s', m₁) := by
    refine ⟨fun k => ?_, fun d' k hd' hne => ?_, fun d' hd' a ha => ?_, hareas, hlist, hlength.ge, hcore, hheader, ?_,
      0, by rw [hlsa]⟩
    · have hk : m₁.key new = some (m.lsa new).header.key := by rw [hkey new hnew, Mem.key, if_pos hnew]
      simp only [copyOf, hself, find?_insertLsa hk]
      rw [Mem.key, if_pos hnew]
      simp only [Option.some.injEq]
      refine if_congr Iff.rfl rfl (find?_congr fun a ha => ?_)
      rw [hkey a (hx d hd a ha)]
    · simp only [copyOf, hothers d' hd' hne]
      refine find?_congr fun a ha => ?_
      rw [hkey a (hx d' hd' a ha)]
    · rw [hlength]
      exact hmem d' hd' a ha
    · rw [hlsa]
      exact hrefresh.body hnew
  have hrun : installLsa new s m =
      ((insertLsa m₁.key new (d.get s)).2.elim (hookInsert d new) (hookReplace d · new) : M ρ Unit) s' m₁ := by
    have hadd : installLsa new s m = (addTo (m.lsa new).lsdb new : M ρ Unit) s m₁ := rfl
    rw [hadd, hdb]
    have hobserve : (Prog.observe : M ρ (State ρ)) s m₁ = (s, s, m₁) := rfl
    have hkeys : (keys : M ρ (Addr → Option LsaKey)) s m₁ = (m₁.key, s, m₁) := rfl
    rw [addTo, lsdbAdd, Prog.run_bind hobserve, Prog.run_bind hkeys, Prog.run_bind hput]
    cases (insertLsa m₁.key new (d.get s)).2 <;> rfl
  rw [hrun]
  refine hinstalls.quiet hd hnew ?_
  cases (insertLsa m₁.key new (d.get s)).2 with
  | none => exact quiet_hookInsert d new s' m₁
  | some old => exact quiet_hookReplace d old new s' m₁

end Copies

end Harry.Sibling
