import Mathlib.Data.List.Nodup
import Harry.SiblingAnswers

/-! What may fail when a received LSA is flooded, installed and acknowledged. Copies of it go on the retransmission lists
of neighbors and on lists of their interfaces, and the LSA itself goes in a database. Where one of its key is there
already, `ospf6_lsa_is_changed` compares the two and asserts that they have a body; and an Intra-Area-Prefix-LSA is
handed to the routing calculation. Nothing else is left to fail where all that is pointed to is there. -/

namespace Harry.Sibling

open Harry.Base Harry.Rfp Prog

variable {ρ : Type}

/-- What the handlers look up: of each interface its area, its controller and its neighbors, of each area its id and
its interfaces, the number of controllers, and the routing tables. -/
structure Ground (ρ : Type) where
  interfaces : List (Nat × Nat × List UInt32)
  areas : List (UInt32 × List Nat)
  clients : Nat
  routes : ρ

def Interface.ground (i : Interface) : Nat × Nat × List UInt32 :=
  (i.area, i.ctrlClient, i.neighborList.map fun n => n.routerId)

def State.ground (s : State ρ) : Ground ρ where
  interfaces := s.interfaces.map Interface.ground
  areas := s.areaList.map fun a => (a.areaId, a.ifList)
  clients := s.ctrlClients.length
  routes := s.routes

/-- All of it is there; an interface is in one area, and a neighbor on an interface, only once. -/
structure Ground.Sound (g : Ground ρ) : Prop where
  inside : ∀ oa ∈ g.areas, ∀ oi ∈ oa.2, oi < g.interfaces.length
  once : (g.areas.flatMap (·.2)).Nodup
  area : ∀ i ∈ g.interfaces, i.1 < g.areas.length
  client : ∀ i ∈ g.interfaces, i.2.1 < g.clients
  neighbors : ∀ i ∈ g.interfaces, i.2.2.Nodup

section Lists

variable {s : State ρ} {m : Mem} {as : List Addr} {db d : Lsdb}

/-- The interface that a list is of. -/
def Lsdb.home : Lsdb → Option Nat
  | .interface oi | .interfaceSelf oi | .interfaceLsupdate oi | .interfaceLsack oi => some oi
  | .neighbor on _ => some on.oi
  | .area _ | .areaSelf _ | .as => none

/-- A list in its interface. -/
def Interface.list (i : Interface) : Lsdb → List Addr
  | .interface _ => i.lsdb
  | .interfaceSelf _ => i.lsdbSelf
  | .interfaceLsupdate _ => i.lsupdateList
  | .interfaceLsack _ => i.lsackList
  | .neighbor on list => ((i.neighborLookup on.routerId).getD default).list list
  | .area _ | .areaSelf _ | .as => []

theorem get_of_home {oi : Nat} (h : d.home = some oi) : d.get s = (s.interfaces.getD oi default).list d := by
  cases d with
  | area oa => cases h
  | areaSelf oa => cases h
  | as => cases h
  | _ =>
      obtain rfl := Option.some.inj h
      rfl

theorem getD_modify {α : Type} [Inhabited α] {f : α → α} (l : List α) (i j : Nat) :
    (l.modify i f).getD j default = if i = j then (l[j]?.map f).getD default else l.getD j default := by
  rw [List.getD_eq_getElem?_getD, List.getElem?_modify, List.getD_eq_getElem?_getD]
  by_cases hij : i = j
  · simp [hij]
  · simp [hij]

/-- A change of an interface that leaves a list alone. -/
theorem get_modifyInterface {f : Interface → Interface} {oi : Nat}
    (h : d.home = some oi → ∀ i, (f i).list d = i.list d) :
    d.get ((modifyInterface oi f : M ρ Unit) s m).2.1 = d.get s := by
  cases hd : d.home with
  | none =>
      cases d with
      | area oa => rfl
      | areaSelf oa => rfl
      | as => rfl
      | _ => cases hd
  | some oi' =>
      rw [get_of_home hd, get_of_home hd]
      show ((s.interfaces.modify oi f).getD oi' default).list d = _
      rw [getD_modify]
      split
      · next heq =>
          rw [List.getD_eq_getElem?_getD]
          cases s.interfaces[oi']? with
          | none => rfl
          | some i => exact h (heq ▸ hd) i
      · rfl

theorem list_congr {i j : Interface} (h : j.kernel = i.kernel) (d : Lsdb) : j.list d = i.list d := by
  simp only [Interface.kernel, Prod.mk.injEq] at h
  obtain ⟨-, hneighbors, hlsdb, hself, hlsupdate, hlsack⟩ := h
  cases d with
  | interface oi => exact hlsdb
  | interfaceSelf oi => exact hself
  | interfaceLsupdate oi => exact hlsupdate
  | interfaceLsack oi => exact hlsack
  | neighbor on list =>
      show ((j.neighborList.find? _).getD default).list list = ((i.neighborList.find? _).getD default).list list
      rw [hneighbors]
  | _ => rfl

/-- A change of a neighbor that leaves a list alone. -/
theorem get_modifyNeighbor {f : Neighbor → Neighbor} (hid : ∀ n, (f n).routerId = n.routerId) {on : NbrRef}
    (h : ∀ list, d = .neighbor on list → ∀ n, (f n).list list = n.list list) :
    d.get ((modifyNeighbor on f : M ρ Unit) s m).2.1 = d.get s := by
  refine get_modifyInterface fun hhome i => ?_
  cases d with
  | neighbor on' list =>
      obtain heq := Option.some.inj hhome
      show (((i.neighborList.map _).find? fun n : Neighbor => n.routerId == on'.routerId).getD default).list list =
        ((i.neighborList.find? fun n => n.routerId == on'.routerId).getD default).list list
      by_cases hr : on.routerId = on'.routerId
      · have hsame : on' = on := by
          cases on
          cases on'
          simp_all
        subst hsame
        rw [find?_routerId_map hid]
        cases i.neighborList.find? fun n => n.routerId == on'.routerId with
        | none => rfl
        | some n => exact h list rfl n
      · rw [find?_routerId_map_of_ne hid hr]
  | _ => rfl

theorem list_setList_of_ne {n : Neighbor} {list list' : NbrList} (h : list' ≠ list) :
    (n.setList as list).list list' = n.list list' := by
  cases list <;> cases list' <;> first | rfl | exact absurd rfl h

/-- Another list than the one that is put. -/
theorem get_put_of_ne (h : d ≠ db) : d.get ((db.put as : M ρ Unit) s m).2.1 = d.get s := by
  cases db with
  | area oa =>
      cases d with
      | area oa' =>
          show ((s.areaList.modify oa _).getD oa' default).lsdb = _
          rw [getD_modify, if_neg fun heq => h (congrArg Lsdb.area heq.symm)]
          rfl
      | areaSelf oa' =>
          show ((s.areaList.modify oa _).getD oa' default).lsdbSelf = (s.areaList.getD oa' default).lsdbSelf
          rw [getD_modify, List.getD_eq_getElem?_getD]
          split
          · cases s.areaList[oa']? <;> rfl
          · rfl
      | _ => rfl
  | areaSelf oa =>
      cases d with
      | areaSelf oa' =>
          show ((s.areaList.modify oa _).getD oa' default).lsdbSelf = _
          rw [getD_modify, if_neg fun heq => h (congrArg Lsdb.areaSelf heq.symm)]
          rfl
      | area oa' =>
          show ((s.areaList.modify oa _).getD oa' default).lsdb = (s.areaList.getD oa' default).lsdb
          rw [getD_modify, List.getD_eq_getElem?_getD]
          split
          · cases s.areaList[oa']? <;> rfl
          · rfl
      | _ => rfl
  | as =>
      cases d with
      | as => exact absurd rfl h
      | _ => rfl
  | neighbor on list =>
      refine get_modifyNeighbor (fun n => routerId_setList n as list) fun list' heq n => list_setList_of_ne fun hlist => ?_
      exact h (heq.trans (congrArg (Lsdb.neighbor on) hlist))
  | _ =>
      -- of the lists of the interface only this one is changed
      refine get_modifyInterface fun hhome i => ?_
      cases d with
      | interface oi => first | rfl | exact absurd (congrArg Lsdb.interface (Option.some.inj hhome)) h
      | interfaceSelf oi => first | rfl | exact absurd (congrArg Lsdb.interfaceSelf (Option.some.inj hhome)) h
      | interfaceLsupdate oi => first | rfl | exact absurd (congrArg Lsdb.interfaceLsupdate (Option.some.inj hhome)) h
      | interfaceLsack oi => first | rfl | exact absurd (congrArg Lsdb.interfaceLsack (Option.some.inj hhome)) h
      | _ => rfl

end Lists

section Copy

variable {m : Mem} {a b : Addr}

theorem length_refresh (m : Mem) (a : Addr) : (m.refresh a).heap.length = m.heap.length := List.length_modify _ _ _

theorem lsaCopy_run (a : Addr) (s : State ρ) (m : Mem) : lsaCopy a s m =
    (m.heap.length, s, (m.refresh a).push ((m.refresh a).lsa a).copy) := by
  have hrun : lsaCopy a s m = ((m.refresh a).heap.length, s, (m.refresh a).push ((m.refresh a).lsa a).copy) := rfl
  rw [hrun, length_refresh]

/-- The heap with a copy. -/
def Mem.copied (m : Mem) (a : Addr) : Mem := (m.refresh a).push ((m.refresh a).lsa a).copy

theorem copied_self (m : Mem) (a : Addr) : (m.copied a).lsa m.heap.length = ((m.refresh a).lsa a).copy := by
  rw [Mem.copied, lsa_push, if_pos (length_refresh m a).symm]

theorem copied_of_lt (h : b < m.heap.length) : (m.copied a).lsa b = (m.refresh a).lsa b := by
  rw [Mem.copied, lsa_push, if_neg (by rw [length_refresh]; exact h.ne)]

theorem length_copied (m : Mem) (a : Addr) : (m.copied a).heap.length = m.heap.length + 1 := by
  rw [Mem.copied, Mem.push, List.length_append, length_refresh]
  rfl

theorem quiet_copied (s : State ρ) (m : Mem) (a : Addr) : Quiet (s, m) (s, m.copied a) := quiet_lsaCopy a s m

theorem contents_copied (m : Mem) (a : Addr) : ((m.copied a).lsa m.heap.length).header = (m.lsa a).header ∧
    ((m.copied a).lsa m.heap.length).body = (m.lsa a).body := by
  rw [copied_self]
  have hinfo := info_refresh m a a
  exact ⟨(congrArg LsaInfo.header hinfo :), (congrArg LsaInfo.body hinfo :)⟩

/-- What an LSA takes the place of was in the list. -/
theorem mem_of_insertLsa_snd {key : Addr → Option LsaKey} {as : List Addr} (h : (insertLsa key a as).2 = some b) :
    b ∈ as := by
  induction as with
  | nil => cases h
  | cons c as ih =>
      unfold insertLsa at h
      split_ifs at h
      · obtain rfl := Option.some.inj h
        exact List.mem_cons_self
      · exact List.mem_cons_of_mem c (ih h)

end Copy

/-- Nothing has failed, and neither a list nor what handlers look up has changed. -/
structure Level (x y : State ρ × Mem) : Prop extends Quiet x y where
  fault : y.1.fault = x.1.fault
  ground : y.1.ground = x.1.ground
  get : ∀ d : Lsdb, d.get y.1 = d.get x.1

instance : Frame (Level (ρ := ρ)) where
  refl _ := ⟨Frame.refl _, rfl, rfl, fun _ => rfl⟩
  trans h h' := ⟨Frame.trans h.toQuiet h'.toQuiet, h'.fault.trans h.fault, h'.ground.trans h.ground, fun d =>
    (h'.get d).trans (h.get d)⟩

section Level

theorem level_of_quiet {α : Type} {m : M ρ α} (hq : Within Quiet m) (h : ∀ s n, (m s n).2.1 = s) : Within Level m :=
  fun s n => ⟨hq s n, congrArg State.fault (h s n), congrArg State.ground (h s n), fun d => congrArg d.get (h s n)⟩

theorem level_modifyInterface (oi : Nat) {f : Interface → Interface} (h : ∀ i, (f i).kernel = i.kernel)
    (hclient : ∀ i, (f i).ctrlClient = i.ctrlClient) : Within Level (modifyInterface oi f : M ρ Unit) := by
  have hfields : ∀ i, (f i).area = i.area ∧ (f i).neighborList = i.neighborList ∧ (f i).lsdb = i.lsdb := fun i => by
    have hi := h i
    simp only [Interface.kernel, Prod.mk.injEq] at hi
    exact ⟨hi.1, hi.2.1, hi.2.2.1⟩
  intro s m
  refine ⟨quiet_modifyInterface oi (fun i => ?_) s m, rfl, ?_, fun d => get_modifyInterface fun _ i => list_congr (h i) d⟩
  · rw [(hfields i).1, (hfields i).2.2]
  · have hground : ∀ i, (f i).ground = i.ground := fun i => by
      unfold Interface.ground
      rw [(hfields i).1, (hfields i).2.1, hclient]
    show Ground.mk ((s.interfaces.modify oi f).map _) _ _ _ = _
    rw [map_modify_of_eq hground]
    rfl

theorem ground_modifyNeighbor (on : NbrRef) {f : Neighbor → Neighbor} (hid : ∀ n, (f n).routerId = n.routerId)
    {s : State ρ} {m : Mem} : ((modifyNeighbor on f : M ρ Unit) s m).2.1.ground = s.ground := by
  have hground : ∀ i : Interface, (i.area, i.ctrlClient, (i.neighborList.map fun n =>
      (if n.routerId == on.routerId then f n else n : Neighbor)).map fun n => n.routerId) = i.ground := fun i => by
    unfold Interface.ground
    rw [List.map_map]
    refine congrArg (fun ids => (i.area, i.ctrlClient, ids)) (List.map_congr_left fun n _ => ?_)
    rw [Function.comp_apply]
    split
    · exact hid n
    · rfl
  show Ground.mk ((s.interfaces.modify on.oi _).map Interface.ground) _ _ _ = _
  rw [map_modify_of_eq hground]
  rfl

theorem level_modifyNeighbor (on : NbrRef) {f : Neighbor → Neighbor}
    (h : ∀ n, ((f n).routerId, (f n).exchange) = (n.routerId, n.exchange)) :
    Within Level (modifyNeighbor on f : M ρ Unit) := by
  have hid : ∀ n, (f n).routerId = n.routerId := fun n => congrArg Prod.fst (h n)
  intro s m
  refine ⟨quiet_modifyNeighbor on f s m, rfl, ?_, fun d => get_modifyNeighbor hid fun list _ n => ?_⟩
  · exact ground_modifyNeighbor on hid
  · have hexchange : (f n).exchange = n.exchange := congrArg Prod.snd (h n)
    cases list with
    | summaryList => exact congrArg Exchange.summaryList hexchange
    | requestList => exact congrArg Exchange.requestList hexchange
    | retransList => exact congrArg Exchange.retransList hexchange
    | dbdescList => exact congrArg Exchange.dbdescList hexchange
    | lsreqList => exact congrArg Exchange.lsreqList hexchange
    | lsupdateList => exact congrArg Exchange.lsupdateList hexchange
    | lsackList => exact congrArg Exchange.lsackList hexchange

theorem level_modifyArea (oa : Nat) {f : Area → Area} (h : ∀ a, (f a).kernel = a.kernel)
    (hid : ∀ a, (f a).areaId = a.areaId) : Within Level (modifyArea oa f : M ρ Unit) := by
  have hfields : ∀ a, (f a).ifList = a.ifList ∧ (f a).lsdb = a.lsdb ∧ (f a).lsdbSelf = a.lsdbSelf := fun a => by
    have ha := h a
    simp only [Area.kernel, Prod.mk.injEq] at ha
    exact ⟨ha.1, ha.2.2.1, ha.2.2.2⟩
  intro s m
  refine ⟨quiet_modifyArea oa (fun a => (hfields a).2.1) s m, rfl, ?_, fun d => ?_⟩
  · show Ground.mk _ ((s.areaList.modify oa f).map _) _ _ = _
    rw [map_modify_of_eq (g := fun a : Area => (a.areaId, a.ifList)) fun a => by rw [hid, (hfields a).1]]
    rfl
  · have hat : ∀ j, ((s.areaList.modify oa f).getD j default).lsdb = (s.areaList.getD j default).lsdb ∧
        ((s.areaList.modify oa f).getD j default).lsdbSelf = (s.areaList.getD j default).lsdbSelf := fun j => by
      rw [getD_modify, List.getD_eq_getElem?_getD]
      split
      · cases s.areaList[j]? with
        | none => exact ⟨rfl, rfl⟩
        | some a => exact (hfields a).2
      · exact ⟨rfl, rfl⟩
    cases d with
    | area oa' => exact (hat oa').1
    | areaSelf oa' => exact (hat oa').2
    | _ => rfl

theorem level_threadAddEvent (t : Thread) : Within Level (threadAddEvent t : M ρ Unit) :=
  fun s m => ⟨quiet_threadAddEvent t s m, rfl, rfl, fun d => by cases d <;> rfl⟩

theorem level_threadAddTimer (t : Thread) : Within Level (threadAddTimer t : M ρ Unit) :=
  fun s m => ⟨quiet_threadAddTimer t s m, rfl, rfl, fun d => by cases d <;> rfl⟩

theorem level_emit (o : Output) : Within Level (emit o : M ρ Unit) := by
  intro s m
  refine ⟨quiet_emit o s m, ?_, ?_, fun d => ?_⟩ <;> show _ = _ <;> unfold emit Prog.modify <;> dsimp only <;> split
  · rfl
  · rfl
  · rfl
  · rfl
  · rfl
  · cases d <;> rfl

theorem level_info (a : Addr) : Within Level (info a : M ρ LsaInfo) := level_of_quiet (quiet_info a) fun _ _ => rfl

theorem level_modifyInfo (a : Addr) {f : LsaInfo → LsaInfo} (h : ∀ l, ((f l).header, (f l).body, (f l).lsdb) =
    (l.header, l.body, l.lsdb)) : Within Level (modifyInfo a f : M ρ Unit) :=
  level_of_quiet (quiet_modifyInfo a h) fun _ _ => rfl

theorem level_isMaxage (a : Addr) : Within Level (isMaxage a : M ρ Bool) :=
  level_of_quiet (quiet_isMaxage a) fun _ _ => rfl

end Level

section Clear

variable {g : Ground ρ} {raw : RawLsa} {new req : Addr} {A B : Lsdb → Prop} {x y : State ρ × Mem} {α : Type}

/-- A list on which a copy of an LSA finds none that it could be taken for, or the LSA has a body. -/
def Free (header : LsaHeader) (d : Lsdb) (x : State ρ × Mem) : Prop :=
  20 < header.length.toNat ∨ ∀ b ∈ d.get x.1, b < x.2.heap.length ∧
    ((x.2.lsa b).header.key = header.key → (x.2.lsa b).header.length ≠ header.length)

/-- Nothing has failed, all that is looked up is there, and the lists `B` are free for the LSA `new`. -/
structure Clear (g : Ground ρ) (raw : RawLsa) (new : Addr) (B : Lsdb → Prop) (x : State ρ × Mem) : Prop where
  fault : x.1.fault = false
  ground : x.1.ground = g
  new_lt : new < x.2.heap.length
  header : (x.2.lsa new).header = raw.header
  body : (x.2.lsa new).body = raw.body
  free : ∀ d, B d → Free raw.header d x

/-- What counts of an LSA. -/
def Lsa.contents (l : Lsa) : LsaHeader × List UInt8 := (l.header, l.body)

theorem Quiet.contents (h : Quiet x y) {a : Addr} (ha : a < x.2.heap.length) :
    (y.2.lsa a).contents = (x.2.lsa a).contents := Prod.ext (h.header ha) (h.body ha)

theorem Free.next {header : LsaHeader} {d : Lsdb} (h : Free header d x) (hlength : x.2.heap.length ≤ y.2.heap.length)
    (hcontents : ∀ a < x.2.heap.length, (y.2.lsa a).contents = (x.2.lsa a).contents)
    (hget : ∀ b ∈ d.get y.1, b ∈ d.get x.1) : Free header d y := by
  refine h.imp_right fun h b hb => ?_
  obtain ⟨hlt, hne⟩ := h b (hget b hb)
  have hheader : (y.2.lsa b).header = (x.2.lsa b).header := congrArg Prod.fst (hcontents b hlt)
  exact ⟨hlt.trans_le hlength, hheader ▸ hne⟩

theorem Clear.next (h : Clear g raw new A x) (hlength : x.2.heap.length ≤ y.2.heap.length)
    (hcontents : ∀ a < x.2.heap.length, (y.2.lsa a).contents = (x.2.lsa a).contents) (hfault : y.1.fault = false)
    (hground : y.1.ground = x.1.ground) (hB : ∀ d, B d → A d) (hget : ∀ d, B d → ∀ b ∈ d.get y.1, b ∈ d.get x.1) :
    Clear g raw new B y where
  fault := hfault
  ground := hground.trans h.ground
  new_lt := h.new_lt.trans_le hlength
  header := (congrArg Prod.fst (hcontents new h.new_lt) : _ = _).trans h.header
  body := (congrArg Prod.snd (hcontents new h.new_lt) : _ = _).trans h.body
  free d hd := (h.free d (hB d hd)).next hlength hcontents (hget d hd)

theorem Clear.mono (h : Clear g raw new A x) (hB : ∀ d, B d → A d) : Clear g raw new B x :=
  { h with free := fun d hd => h.free d (hB d hd) }

theorem Clear.level (h : Clear g raw new B x) (hy : Level x y) : Clear g raw new B y :=
  h.next hy.length (fun _ => hy.contents) (hy.fault.trans h.fault) hy.ground (fun _ hd => hd) fun d _ _ hb => hy.get d ▸ hb

theorem leads_of_level {m : M ρ α} (h : Within Level m) : Leads (Clear g raw new B) (Clear g raw new B) m :=
  fun s n hc => hc.level (h s n)

theorem leads_theInterface_bind {J : State ρ × Mem → Prop} {oi : Nat} {k : Interface → M ρ α}
    (hoi : oi < g.interfaces.length)
    (hk : ∀ i, g.interfaces[oi]? = some i.ground → Leads (Clear g raw new B) J (k i)) :
    Leads (Clear g raw new B) J (theInterface oi >>= k) := by
  intro s m h
  have hlt : oi < s.interfaces.length := by
    rw [← h.ground] at hoi
    simpa [State.ground] using hoi
  rw [Prog.run_bind (theInterface_run (List.getElem?_eq_getElem hlt) m)]
  refine hk _ ?_ s m h
  rw [← h.ground]
  show (s.interfaces.map Interface.ground)[oi]? = _
  rw [List.getElem?_map, List.getElem?_eq_getElem hlt]
  rfl

theorem leads_theArea_bind {J : State ρ × Mem → Prop} {oa : Nat} {k : Area → M ρ α} (hoa : oa < g.areas.length)
    (hk : ∀ a, g.areas[oa]? = some (a.areaId, a.ifList) → Leads (Clear g raw new B) J (k a)) :
    Leads (Clear g raw new B) J (theArea oa >>= k) := by
  intro s m h
  have hlt : oa < s.areaList.length := by
    rw [← h.ground] at hoa
    simpa [State.ground] using hoa
  rw [Prog.run_bind (theArea_run (List.getElem?_eq_getElem hlt) m)]
  refine hk _ ?_ s m h
  rw [← h.ground]
  show (s.areaList.map _)[oa]? = _
  rw [List.getElem?_map, List.getElem?_eq_getElem hlt]
  rfl

theorem leads_theNeighbor_bind {J : State ρ × Mem → Prop} {on : NbrRef} {i : Nat × Nat × List UInt32}
    {k : Neighbor → M ρ α} (hi : g.interfaces[on.oi]? = some i) (hon : on.routerId ∈ i.2.2)
    (hk : ∀ n, Leads (Clear g raw new B) J (k n)) : Leads (Clear g raw new B) J (theNeighbor on >>= k) := by
  intro s m h
  rw [← h.ground] at hi
  obtain ⟨j, hj, rfl⟩ := Option.map_eq_some_iff.mp (List.getElem?_map.symm.trans hi)
  obtain ⟨n, hn, hid⟩ := List.mem_map.mp hon
  obtain ⟨n', hn'⟩ := Option.isSome_iff_exists.mp (List.find?_isSome.mpr ⟨n, hn, by simpa using hid⟩ :
    (j.neighborList.find? fun n => n.routerId == on.routerId).isSome = true)
  have hholds : s.Holds on n' := by
    show s.interfaces[on.oi]?.bind _ = _
    rw [hj]
    exact hn'
  rw [Prog.run_bind (theNeighbor_run hholds m)]
  exact hk n' s m h

theorem leads_hostnumOf_bind {J : State ρ × Mem → Prop} {i : Interface} {k : UInt32 → M ρ α}
    (hi : i.ctrlClient < g.clients)
    (hk : ∀ hostnum, Leads (Clear g raw new B) J (k hostnum)) : Leads (Clear g raw new B) J (hostnumOf i >>= k) := by
  intro s m h
  have hlt : i.ctrlClient < s.ctrlClients.length := by
    rw [← h.ground] at hi
    exact hi
  have hrun : (hostnumOf i : M ρ UInt32) s m = (s.ctrlClients[i.ctrlClient].hostnum, s, m) := by
    simp only [hostnumOf, bind, observe, List.getElem?_eq_getElem hlt]
    rfl
  rw [Prog.run_bind hrun]
  exact hk _ s m h

/-- The request under the key of the LSA. -/
structure Entered (g : Ground ρ) (raw : RawLsa) (new req : Addr) (on : NbrRef) (B : Lsdb → Prop) (x : State ρ × Mem) : Prop
    extends Clear g raw new B x where
  mem : req ∈ x.1.requests on
  req_lt : req < x.2.heap.length
  key : (x.2.lsa req).header.key = raw.header.key

theorem entered_lsaCompare {on : NbrRef} :
    Leads (Entered g raw new req on B) (Entered g raw new req on B) (lsaCompare new req : M ρ Int) := by
  intro s m h
  have hassert : (assert ((m.lsa new).toLsaInfo.header.key == (m.lsa req).toLsaInfo.header.key) : M ρ Unit) s m =
      ((), s, m) := by
    rw [show (m.lsa new).toLsaInfo.header = raw.header from h.header,
      show (m.lsa req).toLsaInfo.header.key = raw.header.key from h.key, beq_self_eq_true]
    rfl
  have hrest : Within Level (
    if signed (m.lsa req).toLsaInfo.header.seqnum < signed (m.lsa new).toLsaInfo.header.seqnum then pure (-1)
    else if signed (m.lsa new).toLsaInfo.header.seqnum < signed (m.lsa req).toLsaInfo.header.seqnum then pure 1
    else if (m.lsa req).toLsaInfo.header.checksum < (m.lsa new).toLsaInfo.header.checksum then pure (-1)
    else if (m.lsa new).toLsaInfo.header.checksum < (m.lsa req).toLsaInfo.header.checksum then pure 0
    else compareAges new req : M ρ Int) :=
    .ite (.pure _) <| .ite (.pure _) <| .ite (.pure _) <| .ite (.pure _) <|
      level_of_quiet (quiet_compareAges new req) fun _ _ => rfl
  have hlevel : Level (s, m) (lsaCompare new req s m).2 := by
    have hrun : (lsaCompare new req : M ρ Int) s m = (if _ then _ else _ : M ρ Int)
      ((assert ((m.lsa new).toLsaInfo.header.key == (m.lsa req).toLsaInfo.header.key) : M ρ Unit) s m).2.1
      ((assert ((m.lsa new).toLsaInfo.header.key == (m.lsa req).toLsaInfo.header.key) : M ρ Unit) s m).2.2 := rfl
    rw [hrun, hassert]
    exact hrest s m
  refine ⟨h.toClear.level hlevel, ?_, h.req_lt.trans_le hlevel.length, ?_⟩
  · show req ∈ (Lsdb.neighbor on .requestList).get _
    rw [hlevel.get]
    exact h.mem
  · rw [hlevel.toQuiet.header h.req_lt]
    exact h.key

/-- The request goes; the other lists are left alone. -/
theorem entered_lsdbRemove {on : NbrRef} :
    Leads (Entered g raw new req on B) (Clear g raw new B) (lsdbRemove req (.neighbor on .requestList) : M ρ Unit) := by
  intro s m h
  have hassert : (assert (decide (req ∈ (Lsdb.neighbor on .requestList).get s)) : M ρ Unit) s m = ((), s, m) := by
    have hmem : req ∈ (Lsdb.neighbor on .requestList).get s := h.mem
    rw [decide_eq_true hmem]
    rfl
  have hobserve : (Prog.observe : M ρ (State ρ)) s m = (s, s, m) := rfl
  let as := ((Lsdb.neighbor on .requestList).get s).erase req
  have hrun : (lsdbRemove req (.neighbor on .requestList) : M ρ Unit) s m =
      ((Lsdb.neighbor on .requestList).put as : M ρ Unit) s m := by
    unfold lsdbRemove
    rw [Prog.run_bind hobserve, Prog.run_bind hassert]
    rfl
  rw [hrun]
  have hground : (((Lsdb.neighbor on .requestList).put as : M ρ Unit) s m).2.1.ground = s.ground :=
    ground_modifyNeighbor on fun n => routerId_setList n as .requestList
  refine h.next (le_refl _) (fun _ _ => rfl) h.fault hground (fun _ hd => hd) fun d hd b hb => ?_
  by_cases heq : d = .neighbor on .requestList
  · subst heq
    have hrequests : State.requests on (lsdbRemove req (.neighbor on .requestList) s m).2.1 = (s.requests on).erase req :=
      lsdbRemove_requests req s m
    rw [hrun] at hrequests
    exact List.mem_of_mem_erase ((congrArg (b ∈ ·) hrequests).mp hb)
  · rwa [get_put_of_ne heq] at hb

theorem clear_examineRequest (on : NbrRef) :
    Leads (Clear g raw new B) (Clear g raw new B) (examineRequest new on : M ρ Bool) := by
  intro s m h
  have hlook : (lsdbLookup (m.lsa new).toLsaInfo.header.key (some (.neighbor on .requestList)) : M ρ (Option Addr)) s m =
      (((Lsdb.neighbor on .requestList).get s).find? fun a => m.key a == some (m.lsa new).toLsaInfo.header.key,
        s, m) := rfl
  unfold examineRequest
  rw [Prog.run_bind (info_run new s m), Prog.run_bind hlook]
  cases hfound : ((Lsdb.neighbor on .requestList).get s).find? fun a =>
      m.key a == some (m.lsa new).toLsaInfo.header.key with
  | none => exact h
  | some req =>
      have hkey : m.key req = some raw.header.key := by
        rw [show (m.lsa new).toLsaInfo.header = raw.header from h.header] at hfound
        simpa using List.find?_some hfound
      have hlt : req < m.heap.length := by
        by_contra hge
        rw [Mem.key, if_neg hge] at hkey
        cases hkey
      have hreq : Entered g raw new req on B (s, m) := ⟨h, List.mem_of_find?_eq_some hfound, hlt, header_of_key hkey⟩
      have hdone : ∀ b : Bool, Leads (Clear g raw new B) (Clear g raw new B) (pure b : M ρ Bool) := fun _ _ _ h => h
      have hstay : ∀ b : Bool, Leads (Entered g raw new req on B) (Clear g raw new B) (pure b : M ρ Bool) :=
        fun _ _ _ h => h.toClear
      refine (Leads.bind entered_lsaCompare fun c => .ite (hstay _) ?_ :
        Leads (Entered g raw new req on B) (Clear g raw new B) (_ : M ρ Bool)) s m hreq
      refine .bind entered_lsaCompare fun c => .ite (.bind entered_lsdbRemove fun _ => hdone _) ?_
      refine .bind entered_lsaCompare fun c => ?_
      exact .bind (.ite entered_lsdbRemove fun _ _ h => h.toClear) fun _ => hdone _

/-- An LSA without a body is not put in the place of one of its length. -/
theorem clash_eq_false {header : LsaHeader} {d : Lsdb} {s : State ρ} {m : Mem} {a b : Addr} (h : Free header d (s, m))
    (hb : b ∈ d.get s) (ha : (m.lsa a).header = header) (hkey : m.key b = some header.key) : clash m b a = false := by
  unfold clash
  rw [ha]
  by_cases hlength : (m.lsa b).header.length = header.length
  · obtain hlong | hfree := h
    · rw [hlength, decide_eq_false (Nat.not_le.mpr hlong), Bool.and_false]
    · exact absurd hlength ((hfree b hb).2 (header_of_key hkey))
  · rw [beq_eq_false_iff_ne.mpr hlength, Bool.and_false, Bool.false_and]

theorem ground_put (as : List Addr) (db : Lsdb) {s : State ρ} {m : Mem} :
    ((db.put as : M ρ Unit) s m).2.1.ground = s.ground := by
  have hinterface : ∀ (oi : Nat) {f : Interface → Interface}, (∀ i, (f i).ground = i.ground) →
      Ground.mk ((s.interfaces.modify oi f).map Interface.ground) (s.areaList.map fun a => (a.areaId, a.ifList))
        s.ctrlClients.length s.routes = s.ground := fun oi f hf => by
    rw [map_modify_of_eq hf]
    rfl
  have harea : ∀ (oa : Nat) {f : Area → Area}, (∀ a, ((f a).areaId, (f a).ifList) = (a.areaId, a.ifList)) →
      Ground.mk (s.interfaces.map Interface.ground) ((s.areaList.modify oa f).map fun a => (a.areaId, a.ifList))
        s.ctrlClients.length s.routes = s.ground := fun oa f hf => by
    rw [map_modify_of_eq (g := fun a : Area => (a.areaId, a.ifList)) hf]
    rfl
  cases db with
  | as => rfl
  | area oa => exact harea oa fun _ => rfl
  | areaSelf oa => exact harea oa fun _ => rfl
  | neighbor on list => exact ground_modifyNeighbor on fun n => routerId_setList n as list
  | interface oi => exact hinterface oi fun _ => rfl
  | interfaceSelf oi => exact hinterface oi fun _ => rfl
  | interfaceLsupdate oi => exact hinterface oi fun _ => rfl
  | interfaceLsack oi => exact hinterface oi fun _ => rfl

theorem put_mem (as : List Addr) (db : Lsdb) {s : State ρ} {m : Mem} : ((db.put as : M ρ Unit) s m).2.2 = m := by
  cases db <;> rfl

theorem fault_put (as : List Addr) (db : Lsdb) {s : State ρ} {m : Mem} :
    ((db.put as : M ρ Unit) s m).2.1.fault = s.fault := by
  cases db <;> rfl

/-- A list is put; the others are left alone. -/
theorem clear_put (as : List Addr) {db : Lsdb} (hB : ¬ B db) :
    Leads (Clear g raw new fun d => d = db ∨ B d) (Clear g raw new B) (db.put as : M ρ Unit) := by
  intro s m h
  have hmem := put_mem (ρ := ρ) as db (s := s) (m := m)
  refine h.next (congrArg (fun m : Mem => m.heap.length) hmem).ge
    (fun a _ => congrArg (fun m : Mem => (m.lsa a).contents) hmem)
    ((fault_put as db).trans h.fault) (ground_put as db) (fun _ hd => .inr hd) fun d hd b hb => ?_
  have hne : d ≠ db := fun heq => hB (heq ▸ hd)
  rwa [get_put_of_ne hne] at hb

variable [RouteCalc ρ]

/-- `lsdbAdd` is the insertion and then the hook for what it replaced. -/
theorem lsdbAdd_of_put {db : Lsdb} {a : Addr} {s q : State ρ} {m n : Mem} {u : Unit}
    (hput : (db.put (insertLsa m.key a (db.get s)).1 : M ρ Unit) s m = (u, q, n)) :
    ((insertLsa m.key a (db.get s)).2 = none → (lsdbAdd a db : M ρ Unit) s m = hookInsert db a q n) ∧
      ∀ old, (insertLsa m.key a (db.get s)).2 = some old → (lsdbAdd a db : M ρ Unit) s m = hookReplace db old a q n := by
  have hobserve : (Prog.observe : M ρ (State ρ)) s m = (s, s, m) := rfl
  have hkeys : (keys : M ρ (Addr → Option LsaKey)) s m = (m.key, s, m) := rfl
  unfold lsdbAdd
  rw [Prog.run_bind hobserve, Prog.run_bind hkeys, Prog.run_bind hput]
  exact ⟨fun hold => by rw [hold], fun old hold => by rw [hold]⟩

/-- A copy goes on a list that is free for it. -/
theorem clear_copyTo {db : Lsdb} (hdb : db.isList = true) (hB : ¬ B db) :
    Leads (Clear g raw new fun d => d = db ∨ B d) (Clear g raw new B) (copyTo new db : M ρ Unit) := by
  intro s m h
  have hcopied : Clear g raw new (fun d => d = db ∨ B d) (s, m.copied new) :=
    have hq := quiet_copied s m new
    h.next hq.length (fun _ => hq.contents) h.fault rfl (fun _ hd => hd) fun _ _ _ hb => hb
  have hself : m.heap.length < (m.copied new).heap.length := by
    rw [length_copied]
    exact Nat.lt_succ_self _
  have hheader : ((m.copied new).lsa m.heap.length).header = raw.header := (contents_copied m new).1.trans h.header
  have hput := clear_put (insertLsa (m.copied new).key m.heap.length (db.get s)).1 hB s (m.copied new) hcopied
  have hmem := put_mem (ρ := ρ) (insertLsa (m.copied new).key m.heap.length (db.get s)).1 db (s := s) (m := m.copied new)
  have hbind : (copyTo new db : M ρ Unit) s m = (lsdbAdd m.heap.length db : M ρ Unit) s (m.copied new) := by
    have hrun : (copyTo new db : M ρ Unit) s m = (lsaCopy new >>= fun copy => lsdbAdd copy db : M ρ Unit) s m := rfl
    rw [hrun, Prog.run_bind (lsaCopy_run new s m)]
    rfl
  generalize hq : (db.put (insertLsa (m.copied new).key m.heap.length (db.get s)).1 : M ρ Unit) s (m.copied new) = r
    at hput hmem
  obtain ⟨u, q, n⟩ := r
  obtain rfl : n = m.copied new := hmem
  have hadd := lsdbAdd_of_put hq
  rw [hbind]
  cases hold : (insertLsa (m.copied new).key m.heap.length (db.get s)).2 with
  | none =>
      rw [hadd.1 hold, hookInsert_list hdb]
      exact hput.level (level_isMaxage m.heap.length q (m.copied new))
  | some old =>
      obtain ⟨n, href, hrun⟩ := hookReplace_run hdb old m.heap.length q (m.copied new)
      have hkey : (m.copied new).key old = some raw.header.key := by
        rw [insertLsa_snd hold, Mem.key, if_pos hself, hheader]
      have hclash := clash_eq_false (hcopied.free db (.inl rfl)) (mem_of_insertLsa_snd hold) hheader hkey
      rw [hadd.2 old hold, hrun, hclash]
      have hq := Quiet.of_refreshes (s := q) (q := q) rfl href
      exact hput.next hq.length (fun _ => hq.contents) hput.fault rfl (fun _ hd => hd) fun _ _ _ hb => hb

/-! The flooding of an LSA, one list after the other -/

omit [RouteCalc ρ] in
theorem leads_observe_bind {I J : State ρ × Mem → Prop} {k : State ρ → M ρ α} (h : ∀ s, Leads I J (k s)) :
    Leads I J (observe >>= k) := fun s m hi => h s s m hi

theorem leads_copyTo_bind {db : Lsdb} {J : State ρ × Mem → Prop} {m : M ρ α} (hdb : db.isList = true) (hB : ¬ B db)
    (h : Leads (Clear g raw new B) J m) :
    Leads (Clear g raw new fun d => d = db ∨ B d) J (lsaCopy new >>= fun copy => lsdbAdd copy db >>= fun _ => m) :=
  (Leads.bind (clear_copyTo hdb hB) fun _ => h : Leads _ J (copyTo new db >>= fun _ => m))

omit [RouteCalc ρ] in
theorem leads_done {a : α} (hB : ∀ d, B d → A d) : Leads (Clear g raw new A) (Clear g raw new B) (pure a : M ρ α) :=
  fun _ _ h => h.mono hB

theorem clear_floodNeighbor (sender : Option NbrRef) {on : NbrRef} {i : Nat × Nat × List UInt32}
    (hi : g.interfaces[on.oi]? = some i) (hon : on.routerId ∈ i.2.2)
    (hB : sender ≠ some on → ¬ B (.neighbor on .retransList)) :
    Leads (Clear g raw new fun d => (sender ≠ some on ∧ d = .neighbor on .retransList) ∨ B d) (Clear g raw new B)
      (floodNeighbor sender new on : M ρ Bool) := by
  refine leads_theNeighbor_bind hi hon fun n => .ite (leads_done fun _ => .inr) ?_
  refine .bind (.ite (clear_examineRequest on) (leads_done fun _ => id)) fun goOn => ?_
  by_cases hsender : sender = some on
  · rw [if_pos (.inr hsender)]
    exact leads_done fun _ => .inr
  have hlist : ∀ x, Clear g raw new (fun d => (sender ≠ some on ∧ d = .neighbor on .retransList) ∨ B d) x →
      Clear g raw new (fun d => d = .neighbor on .retransList ∨ B d) (x : State ρ × Mem) :=
    fun x h => h.mono fun d hd => hd.imp_left fun hd => ⟨hsender, hd⟩
  refine .ite (leads_done fun _ => .inr) (Leads.mono ?_ hlist fun _ h => h)
  refine .bind (leads_of_level (level_modifyInfo new fun _ => rfl)) fun _ => leads_copyTo_bind rfl (hB hsender) ?_
  refine .bind (leads_of_level (.when ?_)) fun _ => leads_done fun _ => id
  exact .bind (level_threadAddTimer _) fun _ => level_modifyNeighbor on fun _ => rfl

variable (g raw new) in
theorem clear_floodNeighbors (sender : Option NbrRef) {ons : List NbrRef} (hnd : ons.Nodup)
    (hin : ∀ on ∈ ons, ∃ i, g.interfaces[on.oi]? = some i ∧ on.routerId ∈ i.2.2)
    (hB : ∀ on ∈ ons, sender ≠ some on → ¬ B (.neighbor on .retransList)) (n : Int) :
    Leads (Clear g raw new fun d => (∃ on ∈ ons, sender ≠ some on ∧ d = .neighbor on .retransList) ∨ B d)
      (Clear g raw new B) (floodNeighbors sender new ons n : M ρ Int) := by
  induction ons generalizing n with
  | nil => exact leads_done fun _ => .inr
  | cons on ons ih =>
      obtain ⟨hon, hnd⟩ := List.nodup_cons.mp hnd
      obtain ⟨i, hi, hid⟩ := hin on List.mem_cons_self
      have hrest : sender ≠ some on →
          ¬ ((∃ on' ∈ ons, sender ≠ some on' ∧ Lsdb.neighbor on .retransList = .neighbor on' .retransList) ∨
            B (.neighbor on .retransList)) := by
        rintro hsender (⟨on', hon', -, heq⟩ | hb)
        · cases heq
          exact hon hon'
        · exact hB on List.mem_cons_self hsender hb
      refine .bind ((clear_floodNeighbor sender hi hid hrest).mono (fun x h => h.mono ?_) fun _ h => h) fun added =>
        ih hnd (fun on' h => hin on' (List.mem_cons_of_mem on h)) (fun on' h => hB on' (List.mem_cons_of_mem on h)) _
      rintro d (hd | ⟨on', hon', hd⟩ | hb)
      · exact .inl ⟨on, List.mem_cons_self, hd⟩
      · exact .inl ⟨on', List.mem_cons_of_mem on hon', hd⟩
      · exact .inr hb

/-- The lists that flooding puts copies on; there is none for the sender. -/
def Lsdb.Flooded (sender : Option NbrRef) : Lsdb → Prop
  | .neighbor on .retransList => sender ≠ some on
  | .interfaceLsupdate _ => True
  | _ => False

theorem clear_floodInterface (hg : g.Sound) (sender : Option NbrRef) {oi : Nat} (hoi : oi < g.interfaces.length)
    (hB : ∀ d : Lsdb, d.Flooded sender ∧ d.home = some oi → ¬ B d) :
    Leads (Clear g raw new fun d => (d.Flooded sender ∧ d.home = some oi) ∨ B d) (Clear g raw new B)
      (floodInterface sender new oi : M ρ Unit) := by
  refine leads_theInterface_bind hoi fun i hi => leads_observe_bind fun s => ?_
  have hids : (i.neighborList.map fun n => n.routerId).Nodup := hg.neighbors _ (List.mem_of_getElem? hi)
  have hnd : (i.neighborList.map fun n => (⟨oi, n.routerId⟩ : NbrRef)).Nodup := by
    rw [show (i.neighborList.map fun n => (⟨oi, n.routerId⟩ : NbrRef)) =
      (i.neighborList.map fun n => n.routerId).map fun r => ⟨oi, r⟩ by rw [List.map_map]; rfl]
    exact List.Nodup.map (fun r r' heq => congrArg NbrRef.routerId heq) hids
  have hself : ¬ B (.interfaceLsupdate oi) := hB _ ⟨trivial, rfl⟩
  have hneighbors := clear_floodNeighbors g raw new
    (B := fun d => d = .interfaceLsupdate oi ∨ B d) sender hnd (fun on hon => ?_) (fun on hon => ?_)
    s.outside.retransAdded
  · refine .bind (hneighbors.mono (fun x h => h.mono ?_) fun _ h => h) fun n => ?_
    · rintro d (⟨on, hon, hsender, rfl⟩ | rfl | hb)
      · obtain ⟨n, -, rfl⟩ := List.mem_map.mp hon
        exact .inl ⟨hsender, rfl⟩
      · exact .inl ⟨trivial, rfl⟩
      · exact .inr hb
    refine .ite (leads_done fun _ => .inr) <| .ite (leads_done fun _ => .inr) <| .ite (leads_done fun _ => .inr) ?_
    refine leads_copyTo_bind rfl hself (leads_of_level (.when ?_))
    exact .bind (level_threadAddEvent _) fun _ => level_modifyInterface oi (fun _ => rfl) fun _ => rfl
  · obtain ⟨n, hn, rfl⟩ := List.mem_map.mp hon
    exact ⟨i.ground, hi, List.mem_map.mpr ⟨n, hn, rfl⟩⟩
  · obtain ⟨n, hn, rfl⟩ := List.mem_map.mp hon
    rintro hsender (heq | hb)
    · cases heq
    · exact hB (.neighbor _ .retransList) ⟨hsender, rfl⟩ hb

variable (g raw new) in
omit [RouteCalc ρ] in
/-- A loop whose turns put copies on lists of their own. -/
theorem clear_forM {γ : Type} {S : γ → Lsdb → Prop} {f : γ → M ρ Unit} {l : List γ}
    (hstep : ∀ z ∈ l, ∀ B, (∀ d, S z d → ¬ B d) →
      Leads (Clear g raw new fun d => S z d ∨ B d) (Clear g raw new B) (f z))
    (hdisj : l.Pairwise fun z z' => ∀ d, S z d → ¬ S z' d) (hB : ∀ z ∈ l, ∀ d, S z d → ¬ B d) :
    Leads (Clear g raw new fun d => (∃ z ∈ l, S z d) ∨ B d) (Clear g raw new B) (l.forM f) := by
  induction l with
  | nil => exact leads_done fun _ => .inr
  | cons z l ih =>
      obtain ⟨hz, hl⟩ := List.pairwise_cons.mp hdisj
      have hrest : ∀ d, S z d → ¬ ((∃ z' ∈ l, S z' d) ∨ B d) := by
        rintro d hd (⟨z', hz', hd'⟩ | hb)
        · exact hz z' hz' d hd hd'
        · exact hB z List.mem_cons_self d hd hb
      refine .bind ((hstep z List.mem_cons_self _ hrest).mono (fun x h => h.mono ?_) fun _ h => h) fun _ =>
        ih (fun z' h => hstep z' (List.mem_cons_of_mem z h)) hl fun z' h => hB z' (List.mem_cons_of_mem z h)
      rintro d (hd | ⟨z', hz', hd⟩ | hb)
      · exact .inl ⟨z, List.mem_cons_self, hd⟩
      · exact .inl ⟨z', List.mem_cons_of_mem z hz', hd⟩
      · exact .inr hb

/-- Such a list in an area. -/
def Lsdb.InArea (g : Ground ρ) (sender : Option NbrRef) (oa : Nat) (d : Lsdb) : Prop :=
  ∃ a, g.areas[oa]? = some a ∧ ∃ oi ∈ a.2, d.Flooded sender ∧ d.home = some oi

omit [RouteCalc ρ] in
theorem Ground.Sound.area_eq (hg : g.Sound) {sender : Option NbrRef} {oa oa' : Nat} {d : Lsdb}
    (h : d.InArea g sender oa) (h' : d.InArea g sender oa') : oa = oa' := by
  obtain ⟨a, ha, oi, hoi, -, hhome⟩ := h
  obtain ⟨a', ha', oi', hoi', -, hhome'⟩ := h'
  obtain rfl : oi = oi' := Option.some.inj (hhome.symm.trans hhome')
  obtain ⟨hlt, rfl⟩ := List.getElem?_eq_some_iff.mp ha
  obtain ⟨hlt', rfl⟩ := List.getElem?_eq_some_iff.mp ha'
  have hpairs := List.pairwise_iff_getElem.mp (List.nodup_flatMap.mp hg.once).2
  rcases Nat.lt_trichotomy oa oa' with hlt | heq | hgt
  · exact absurd hoi' (List.disjoint_left.mp (hpairs oa oa' _ _ hlt) hoi)
  · exact heq
  · exact absurd hoi (List.disjoint_left.mp (hpairs oa' oa _ _ hgt) hoi')

theorem clear_floodArea (hg : g.Sound) (sender : Option NbrRef) {oa : Nat} (hoa : oa < g.areas.length)
    (hB : ∀ d : Lsdb, d.InArea g sender oa → ¬ B d) :
    Leads (Clear g raw new fun d => d.InArea g sender oa ∨ B d) (Clear g raw new B)
      (floodArea sender new oa : M ρ Unit) := by
  refine .bind (leads_of_level (level_info new)) fun l => leads_theArea_bind hoa fun a ha => ?_
  have hnd : a.ifList.Nodup := (List.nodup_flatMap.mp hg.once).1 _ (List.mem_of_getElem? ha)
  have hloop := clear_forM g raw new (B := B)
    (S := fun oi d => d.Flooded sender ∧ d.home = some oi) (l := a.ifList)
    (f := fun oi => if lsaScope l.header.type = .linklocal ∧ l.lsdb ≠ some (.interface oi) then pure ()
      else floodInterface sender new oi)
    (fun oi hoi B hB => .ite (leads_done fun _ => .inr)
      (clear_floodInterface hg sender (hg.inside _ (List.mem_of_getElem? ha) oi hoi) hB))
    (hnd.imp fun hne d hd hd' => hne (Option.some.inj (hd.2.symm.trans hd'.2)))
    fun oi hoi d hd => hB d ⟨_, ha, oi, hoi, hd⟩
  refine hloop.mono (fun x h => h.mono ?_) fun _ h => h
  rintro d (⟨oi, hoi, hd⟩ | hb)
  · exact .inl ⟨_, ha, oi, hoi, hd⟩
  · exact .inr hb

/-- Flooding fails nowhere, if the lists it puts copies on are free for them. -/
theorem clear_flood (hg : g.Sound) (sender : Option NbrRef) (hB : ∀ d : Lsdb, d.Flooded sender → ¬ B d) :
    Leads (Clear g raw new fun d => d.Flooded sender ∨ B d) (Clear g raw new B) (flood sender new : M ρ Unit) := by
  intro s m h
  have hlength : s.areaList.length = g.areas.length := by
    rw [← h.ground]
    exact (List.length_map _).symm
  rw [flood_run, hlength]
  have hloop := clear_forM g raw new (B := B) (S := fun oa d => d.InArea g sender oa)
    (l := List.range g.areas.length) (f := floodTurn sender new (m.lsa new).toLsaInfo s)
    (fun oa hoa B hB => leads_theArea_bind (List.mem_range.mp hoa) fun a _ => .ite (leads_done fun _ => .inr) <|
      .ite (leads_done fun _ => .inr) (clear_floodArea hg sender (List.mem_range.mp hoa) hB))
    (List.nodup_range.imp fun hne d hd hd' => hne (hg.area_eq hd hd'))
    fun oa _ d hd => hB d (by obtain ⟨a, -, oi, -, hflooded, -⟩ := hd; exact hflooded)
  refine hloop s m (h.mono ?_)
  rintro d (⟨oa, hoa, a, -, oi, -, hflooded, -⟩ | hb)
  · exact .inl hflooded
  · exact .inr hb

/-- The routing tables may have changed. -/
def ClearSome (g : Ground ρ) (raw : RawLsa) (new : Addr) (B : Lsdb → Prop) (x : State ρ × Mem) : Prop :=
  ∃ routes, Clear { g with routes := routes } raw new B x

/-- The interface or the area of a database is there. -/
def Lsdb.There (g : Ground ρ) : Lsdb → Prop
  | .interface oi => oi < g.interfaces.length
  | .area oa => oa < g.areas.length
  | _ => True

/-- The calculation of the routes of an Intra-Area-Prefix-LSA does not fail, and sends only to controllers that are
there. -/
def Calculates (g : Ground ρ) (raw : RawLsa) (d : Lsdb) : Prop :=
  raw.header.type = lstypeIntraPrefix → ∀ oa a, d = .area oa → g.areas[oa]? = some a → ∀ l : LsaInfo,
    l.header = raw.header → l.body = raw.body →
      (RouteCalc.intraPrefixLsaAdd g.routes oa a.1 l).result.isSome = true ∧
        ∀ r ∈ (RouteCalc.intraPrefixLsaAdd g.routes oa a.1 l).outs, r.1 < g.clients

section Hooks

omit [RouteCalc ρ]

theorem Clear.some (h : Clear g raw new B x) : ClearSome g raw new B x := ⟨g.routes, h⟩

theorem clear_spfSchedule {oa : Nat} (hoa : oa < g.areas.length) (hostnum : UInt32) :
    Leads (Clear g raw new B) (Clear g raw new B) (spfSchedule oa hostnum : M ρ Unit) := by
  refine leads_theArea_bind hoa fun a _ => .ite (leads_done fun _ => id) (leads_of_level ?_)
  exact .bind (level_threadAddEvent _) fun _ => level_modifyArea oa (fun _ => rfl) fun _ => rfl

theorem clear_interfaceLsdbHook (hg : g.Sound) {oi : Nat} (hoi : oi < g.interfaces.length) (a : Addr) :
    Leads (Clear g raw new B) (Clear g raw new B) (interfaceLsdbHook oi a : M ρ Unit) := by
  refine .bind (leads_of_level (level_info a)) fun l => .ite ?_ (leads_done fun _ => id)
  refine leads_theInterface_bind hoi fun i hi => .bind (.ite ?_ (leads_done fun _ => id)) fun _ => ?_
  · refine leads_theInterface_bind hoi fun i _ => .ite (leads_done fun _ => id) (leads_of_level ?_)
    exact .bind (level_threadAddEvent _) fun _ => level_modifyInterface oi (fun _ => rfl) fun _ => rfl
  · have hmem := List.mem_of_getElem? hi
    exact leads_hostnumOf_bind (hg.client _ hmem) fun hostnum => clear_spfSchedule (hg.area _ hmem) hostnum

theorem clear_hookRemove (hg : g.Sound) {d : Lsdb} (hd : d.There g) (a : Addr) :
    Leads (Clear g raw new B) (Clear g raw new B) (hookRemove d a : M ρ Unit) := by
  cases d with
  | interface oi => exact clear_interfaceLsdbHook hg hd a
  | area oa =>
      exact .bind (leads_of_level (level_info a)) fun l => .ite (clear_spfSchedule hd l.hostnum) (leads_done fun _ => id)
  | _ => exact leads_done fun _ => id

theorem clear_sendNext {client : Nat} (h : client < g.clients) (type : RfpType) (body : List UInt8) :
    Leads (Clear g raw new B) (Clear g raw new B) (sendNext client type body : M ρ Unit) := by
  intro s m hc
  have hlt : client < s.ctrlClients.length := by
    rw [← hc.ground] at h
    exact h
  have hobserve : (Prog.observe : M ρ (State ρ)) s m = (s, s, m) := rfl
  unfold sendNext
  rw [Prog.run_bind hobserve, List.getElem?_eq_getElem hlt]
  refine (Leads.bind (leads_of_level (level_emit _)) fun _ => ?_ : Leads (Clear g raw new B) (Clear g raw new B) _) s m hc
  refine leads_of_level fun s m => ⟨⟨rfl, le_rfl, fun _ _ => rfl, 0, fun _ => rfl⟩, rfl, ?_, fun d => by cases d <;> rfl⟩
  show Ground.mk _ _ (s.ctrlClients.modify _ _).length _ = _
  rw [List.length_modify]
  rfl

theorem clear_routeCalc {c : Exec (Nat × List UInt8) ρ} (hsome : c.result.isSome = true)
    (houts : ∀ r ∈ c.outs, r.1 < g.clients) :
    Leads (Clear g raw new B) (ClearSome g raw new B) (routeCalc c : M ρ Unit) := by
  refine .bind (.forM fun r hr => clear_sendNext (houts r hr) _ _) fun _ => ?_
  obtain ⟨routes, hroutes⟩ := Option.isSome_iff_exists.mp hsome
  rw [hroutes]
  intro s m h
  refine ⟨routes, h.fault, ?_, h.new_lt, h.header, h.body, fun d hd => ?_⟩
  · rw [← h.ground]
    rfl
  · have hget : d.get { s with routes := routes } = d.get s := by cases d <;> rfl
    exact (h.free d hd).next (le_refl _) (fun _ _ => rfl) fun b hb => hget ▸ hb

end Hooks

theorem clear_hookAdd (hg : g.Sound) {d : Lsdb} (hd : d.There g) (hcalc : Calculates g raw d) :
    Leads (Clear g raw new B) (ClearSome g raw new B) (hookAdd d new : M ρ Unit) := by
  have hstay : ∀ {m : M ρ Unit}, Leads (Clear g raw new B) (Clear g raw new B) m →
      Leads (Clear g raw new B) (ClearSome g raw new B) m := fun h => h.mono (fun _ hx => hx) fun _ => Clear.some
  cases d with
  | interface oi => exact hstay (clear_interfaceLsdbHook hg hd new)
  | area oa =>
      intro s m h
      have hheader : (m.lsa new).toLsaInfo.header = raw.header := h.header
      show ClearSome g raw new B ((info new >>= fun l => _ : M ρ Unit) s m).2
      rw [Prog.run_bind (info_run new s m), hheader]
      refine (Leads.ite (hstay (clear_spfSchedule hd _)) ?_ : Leads (Clear g raw new B) _ (_ : M ρ Unit)) s m h
      by_cases htype : raw.header.type = lstypeIntraPrefix
      swap
      · rw [if_neg htype]
        exact hstay (leads_done fun _ => id)
      rw [if_pos htype]
      refine .bind (leads_of_level (level_isMaxage new)) fun old => .ite (hstay (leads_done fun _ => id)) fun s m h => ?_
      have hobserve : (Prog.observe : M ρ (State ρ)) s m = (s, s, m) := rfl
      rw [Prog.run_bind (info_run new s m), Prog.run_bind hobserve]
      have hlt : oa < s.areaList.length := by
        have hoa : oa < g.areas.length := hd
        rw [← h.ground] at hoa
        simpa [State.ground] using hoa
      have harea : g.areas[oa]? = some (s.areaList[oa].areaId, s.areaList[oa].ifList) := by
        rw [← h.ground]
        show (s.areaList.map _)[oa]? = _
        rw [List.getElem?_map, List.getElem?_eq_getElem hlt]
        rfl
      have hroutes : s.routes = g.routes := by
        rw [← h.ground]
        rfl
      have hid : (s.areaList.getD oa default).areaId = s.areaList[oa].areaId := by
        rw [List.getD_eq_getElem?_getD, List.getElem?_eq_getElem hlt]
        rfl
      obtain ⟨hsome, houts⟩ := hcalc htype oa _ rfl harea (m.lsa new).toLsaInfo h.header h.body
      rw [hroutes, hid]
      exact clear_routeCalc hsome houts s m h
  | _ => exact hstay (leads_done fun _ => id)

/-- The LSA goes in a database that is free for it. -/
theorem clear_lsdbAdd (hg : g.Sound) {d : Lsdb} (hd : d.There g) (hcalc : Calculates g raw d) (hB : ¬ B d) :
    Leads (Clear g raw new fun d' => d' = d ∨ B d') (ClearSome g raw new B) (lsdbAdd new d : M ρ Unit) := by
  intro s m h
  have hput := clear_put (insertLsa m.key new (d.get s)).1 hB s m h
  have hmem := put_mem (ρ := ρ) (insertLsa m.key new (d.get s)).1 d (s := s) (m := m)
  generalize hq : (d.put (insertLsa m.key new (d.get s)).1 : M ρ Unit) s m = r at hput hmem
  obtain ⟨u, q, n⟩ := r
  obtain rfl : n = m := hmem
  have hadd := lsdbAdd_of_put hq
  have hremove : Leads (Clear g raw new B) (ClearSome g raw new B) (hookRemove d new : M ρ Unit) :=
    (clear_hookRemove hg hd new).mono (fun _ hx => hx) fun _ => Clear.some
  cases hold : (insertLsa n.key new (d.get s)).2 with
  | none =>
      rw [hadd.1 hold]
      exact (Leads.bind (leads_of_level (level_isMaxage new)) fun gone => .ite hremove (clear_hookAdd hg hd hcalc) :
        Leads (Clear g raw new B) _ (hookInsert d new : M ρ Unit)) q n hput
  | some old =>
      have hkey : n.key old = some raw.header.key := by
        rw [insertLsa_snd hold, Mem.key, if_pos h.new_lt, h.header]
      have hclash := clash_eq_false (h.free d (.inl rfl)) (mem_of_insertLsa_snd hold) h.header hkey
      obtain ⟨changed, hrun⟩ := lsaIsChanged_run old new q n
      rw [hclash] at hrun
      have hlevel : Clear g raw new B (q, (n.refresh old).refresh new) := by
        have hquiet := Quiet.of_refreshes (s := q) (q := q) rfl ((Refreshes.refl (m := n)).step old |>.step new)
        exact hput.next hquiet.length (fun _ => hquiet.contents) hput.fault rfl (fun _ hd => hd) fun _ _ _ hb => hb
      rw [hadd.2 old hold]
      show ClearSome g raw new B ((lsaIsChanged old new >>= fun changed => when (changed = true) (hookChange d old new) :
        M ρ Unit) q n).2
      rw [Prog.run_bind hrun]
      refine (Leads.ite ?_ (fun _ _ hx => Clear.some hx) : Leads (Clear g raw new B) _ (when (changed = true)
        (hookChange d old new) : M ρ Unit)) q _ hlevel
      refine .bind (leads_of_level (level_isMaxage new)) fun gone =>
        .ite (.bind (clear_hookRemove hg hd old) fun _ => hremove) ?_
      refine .bind (leads_of_level (level_isMaxage old)) fun back => .ite (clear_hookAdd hg hd hcalc) ?_
      exact .bind (clear_hookRemove hg hd old) fun _ => clear_hookAdd hg hd hcalc

theorem clear_installLsa (hg : g.Sound) {d : Lsdb} (hd : d.There g) (hcalc : Calculates g raw d) (hB : ¬ B d)
    (h : Clear g raw new (fun d' => d' = d ∨ B d') x) (hlsdb : (x.2.lsa new).lsdb = some d) :
    ClearSome g raw new B (installLsa new x.1 x.2 : Unit × State ρ × Mem).2 := by
  obtain ⟨s, m⟩ := x
  have hrun : (installLsa new : M ρ Unit) s m = (stampInstalled new >>= fun _ => addTo (m.lsa new).lsdb new) s m := rfl
  have hstamp : ∃ m', (stampInstalled new : M ρ Unit) s m = ((), s, m') ∧
      Clear g raw new (fun d' => d' = d ∨ B d') (s, m') := by
    refine ⟨_, rfl, h.next ?_ (fun a ha => ?_) h.fault rfl (fun _ hd => hd) fun _ _ _ hb => hb⟩
    · show m.heap.length ≤ (((m.tick.refresh new).update new _).heap).length
      rw [Mem.update, List.length_modify, length_refresh]
      exact le_refl _
    · show (((m.tick.refresh new).update new _).lsa a).contents = (m.lsa a).contents
      have hinfo := info_refresh m.tick new a
      have hcontents : ((m.tick.refresh new).lsa a).contents = (m.lsa a).contents :=
        congrArg (fun l : LsaInfo => (l.header, l.body)) hinfo
      rw [lsa_update]
      split
      · exact hcontents
      · exact hcontents
  obtain ⟨m', hstamp, hclear⟩ := hstamp
  rw [hrun, Prog.run_bind hstamp, hlsdb]
  exact clear_lsdbAdd hg hd hcalc hB s m' hclear

theorem clear_acknowledgeLsa {sender : NbrRef} (hoi : sender.oi < g.interfaces.length)
    (hB : ¬ B (.interfaceLsack sender.oi)) :
    Leads (Clear g raw new fun d => d = .interfaceLsack sender.oi ∨ B d) (Clear g raw new B)
      (acknowledgeLsa new (-1) sender : M ρ Unit) := by
  have hdelayed : Leads (Clear g raw new fun d => d = .interfaceLsack sender.oi ∨ B d) (Clear g raw new B)
      (acknowledgeDelayed new sender.oi : M ρ Unit) := by
    refine leads_copyTo_bind rfl hB (leads_theInterface_bind hoi fun i _ => leads_of_level (.when ?_))
    exact .bind (level_threadAddTimer _) fun _ => level_modifyInterface _ (fun _ => rfl) fun _ => rfl
  refine leads_theInterface_bind hoi fun i _ => .ite ?_ ?_
  · refine .bind (leads_of_level (level_info new)) fun l => leads_theInterface_bind hoi fun i _ => ?_
    refine .ite (leads_done fun _ => .inr) ?_
    rw [if_pos (by decide : (-1 : Int) < 0)]
    exact .ite hdelayed (leads_done fun _ => .inr)
  · refine .bind (leads_of_level (level_info new)) fun l => .ite (leads_done fun _ => .inr) ?_
    rw [if_pos (by decide : (-1 : Int) < 0)]
    exact hdelayed

end Clear

end Harry.Sibling
