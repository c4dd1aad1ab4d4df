import Mathlib.Data.List.Nodup
import Harry.SiblingFiled
import Harry.SiblingRequests

/-! What holds of a neighbor in the exchange of databases, whatever else a sibling does. A property of the part that a
neighbor has in the exchange, by what is pending, is stable if it outlasts the steps that have no part in it. -/

namespace Harry.Sibling

open Harry.Base Harry.Rfp Prog

variable {ρ : Type}

/-- A property of a neighbor, by the events and the timers that are pending. -/
abbrev NeighborProp := NbrRef → Exchange → List Thread → List Thread → Prop

/-- The threads that are added as timers, among others. -/
def Thread.Timed : Thread → Prop
  | .exchangeDone _ | .loadingDone _ => False
  | _ => True

/-- Each neighbor has the property, no two neighbors on an interface have the same router id, and the end of an exchange is
no timer. -/
structure Each (Q : NeighborProp) (x : State ρ × Mem) : Prop where
  nodup : ∀ i ∈ x.1.interfaces, (i.neighborList.map Neighbor.routerId).Nodup
  all : ∀ oi i, x.1.interfaces[oi]? = some i → ∀ n ∈ i.neighborList, Q ⟨oi, n.routerId⟩ n.exchange x.1.events x.1.timers
  timed : ∀ t ∈ x.1.timers, t.Timed

/-- The same, with all LSAs filed. -/
def Meets (Q : NeighborProp) (x : State ρ × Mem) : Prop := Filed x ∧ Each Q x

/-- A property of all with one of the part that one neighbor has in the exchange. -/
def Knowing (Q : NeighborProp) (on : NbrRef) (P : Exchange → Prop) : NeighborProp :=
  fun on' e ev ti => Q on' e ev ti ∧ (on' = on → P e)

/-- A property that outlasts the plain steps. -/
structure Lasting (Q : NeighborProp) : Prop where
  event : ∀ {on e ev ti} {t : Thread}, t.Plain → Q on e ev ti → Q on e (ev ++ [t]) ti
  timer : ∀ {on e ev ti} {t : Thread}, t.Plain → Q on e ev ti → Q on e ev (ti ++ [t])
  offEvent : ∀ {on e ev ti} (t : Thread), Q on e ev ti → Q on e (ev.erase t) ti
  offTimer : ∀ {on e ev ti} (t : Thread), Q on e ev ti → Q on e ev (ti.erase t)

/-- A property that outlasts the steps which touch neither the state of a neighbor nor its DbDescs. -/
structure Stable (Q : NeighborProp) : Prop extends Lasting Q where
  badLsreq : ∀ {on e ev ti} (on' : NbrRef), Q on e ev ti → Q on e (ev ++ [.badLsreq on']) ti
  list : ∀ {on n ev ti} {list : NbrList} (as : List Addr), (Lsdb.neighbor on list).Plain ∨ list = .retransList →
    Q on (Neighbor.exchange n) ev ti → Q on (n.setList as list).exchange ev ti
  unrequest : ∀ {on n ev ti} (a : Addr), Q on (Neighbor.exchange n) ev ti →
    Q on (n.setList (n.requestList.erase a) .requestList).exchange ev ti

section Each

variable {Q : NeighborProp} {s s' : State ρ} {m m' : Mem} {on : NbrRef} {n : Neighbor}

theorem Each.of_kernel (h : Each Q (s, m)) (hk : s'.kernel = s.kernel) : Each Q (s', m') := by
  simp only [State.kernel, Prod.mk.injEq] at hk
  obtain ⟨-, -, hinterfaces, -, hevents, htimers, -⟩ := hk
  refine ⟨?_, ?_, ?_⟩
  · rw [hinterfaces]
    exact h.nodup
  · rw [hinterfaces, hevents, htimers]
    exact h.all
  · rw [htimers]
    exact h.timed

theorem Each.threads {Q' : NeighborProp} (h : Each Q (s, m)) (m' : Mem) {ev ti : List Thread}
    (hti : ∀ t ∈ ti, t ∈ s.timers ∨ t.Timed) (hQ : ∀ on e, Q on e s.events s.timers → Q' on e ev ti) :
    Each Q' ({ s with events := ev, timers := ti }, m') where
  nodup := h.nodup
  all oi i hi n hn := hQ _ _ (h.all oi i hi n hn)
  timed t ht := (hti t ht).elim (h.timed t) id

/-- An interface whose neighbors come to what they should be. -/
theorem Each.leadInterface {Q' : NeighborProp} (h : Each Q (s, m)) (oi : Nat) {f : Interface → Interface}
    (hother : ∀ {on e ev ti}, on.oi ≠ oi → Q on e ev ti → Q' on e ev ti)
    (hf : ∀ i, s.interfaces[oi]? = some i → ((f i).neighborList.map Neighbor.routerId).Nodup ∧
      ∀ n ∈ (f i).neighborList, Q' ⟨oi, n.routerId⟩ n.exchange s.events s.timers) :
    Each Q' ((modifyInterface oi f : M ρ Unit) s m).2 := by
  have hget : ∀ oj i, (s.interfaces.modify oi f)[oj]? = some i →
      oj ≠ oi ∧ s.interfaces[oj]? = some i ∨ oi = oj ∧ ∃ j, s.interfaces[oi]? = some j ∧ f j = i := by
    intro oj i hi
    rw [List.getElem?_modify] at hi
    obtain ⟨j, hj, hji⟩ := Option.map_eq_some_iff.mp hi
    by_cases hoj : oi = oj
    · subst hoj
      rw [if_pos rfl] at hji
      exact .inr ⟨rfl, j, hj, hji⟩
    · rw [if_neg hoj] at hji
      exact .inl ⟨Ne.symm hoj, hji ▸ hj⟩
  refine ⟨fun i hi => ?_, fun oj i hi n hn => ?_, h.timed⟩
  · obtain ⟨oj, hi⟩ := List.mem_iff_getElem?.mp hi
    obtain ⟨-, hi⟩ | ⟨-, j, hj, rfl⟩ := hget oj i hi
    · exact h.nodup i (List.mem_of_getElem? hi)
    · exact (hf j hj).1
  · obtain ⟨hne, hi⟩ | ⟨rfl, j, hj, rfl⟩ := hget oj i hi
    · exact hother hne (h.all oj i hi n hn)
    · exact (hf j hj).2 n hn

theorem Each.modifyInterface (h : Each Q (s, m)) (oi : Nat) {f : Interface → Interface}
    (hf : ∀ i, s.interfaces[oi]? = some i → ((f i).neighborList.map Neighbor.routerId).Nodup ∧
      ∀ n ∈ (f i).neighborList, Q ⟨oi, n.routerId⟩ n.exchange s.events s.timers) :
    Each Q ((Sibling.modifyInterface oi f : M ρ Unit) s m).2 := h.leadInterface oi (fun _ hQ => hQ) hf

/-- An interface whose neighbors stay. -/
theorem Each.sameNeighbors (h : Each Q (s, m)) (oi : Nat) {f : Interface → Interface}
    (hf : ∀ i, (f i).neighborList = i.neighborList) : Each Q ((Sibling.modifyInterface oi f : M ρ Unit) s m).2 := by
  refine h.modifyInterface oi fun i hi => ?_
  rw [hf i]
  exact ⟨h.nodup i (List.mem_of_getElem? hi), h.all oi i hi⟩

/-- The neighbor of a router id is the one that is found. -/
theorem Each.holds (h : Each Q (s, m)) {i : Interface} (hi : s.interfaces[on.oi]? = some i) (hn : n ∈ i.neighborList)
    (hid : n.routerId = on.routerId) : s.Holds on n := by
  have hnodup := h.nodup i (List.mem_of_getElem? hi)
  show (s.interfaces[on.oi]?.bind fun i => i.neighborLookup on.routerId) = some n
  rw [hi]
  show i.neighborList.find? (fun n => n.routerId == on.routerId) = some n
  cases hfound : i.neighborList.find? fun n => n.routerId == on.routerId with
  | none => simpa [hid] using List.find?_eq_none.mp hfound n hn
  | some n' =>
      have hid' : n'.routerId = on.routerId := by simpa using List.find?_some hfound
      exact congrArg some (List.inj_on_of_nodup_map hnodup (List.mem_of_find?_eq_some hfound) hn (hid'.trans hid.symm))

/-- A neighbor that is found has the property. -/
theorem Each.of_holds (h : Each Q (s, m)) (hn : s.Holds on n) : Q on n.exchange s.events s.timers := by
  obtain ⟨i, hi, hfound⟩ := Option.bind_eq_some_iff.mp hn
  have hid : n.routerId = on.routerId := by simpa using List.find?_some hfound
  have hQ := h.all on.oi i hi n (List.mem_of_find?_eq_some hfound)
  rwa [hid] at hQ

/-- A neighbor that comes to what it should be. -/
theorem Each.leadNeighbor {Q' : NeighborProp} (h : Each Q (s, m)) (on : NbrRef) {f : Neighbor → Neighbor}
    (hid : ∀ n, (f n).routerId = n.routerId) (hother : ∀ {on' e ev ti}, on' ≠ on → Q on' e ev ti → Q' on' e ev ti)
    (hf : ∀ n, s.Holds on n → Q on n.exchange s.events s.timers → Q' on (f n).exchange s.events s.timers) :
    Each Q' ((modifyNeighbor on f : M ρ Unit) s m).2 := by
  refine h.leadInterface on.oi (fun hne => hother fun heq => hne (congrArg NbrRef.oi heq)) fun i hi => ⟨?_, fun n hn => ?_⟩
  · have hmap : (i.neighborList.map fun n => if n.routerId == on.routerId then f n else n).map Neighbor.routerId =
        i.neighborList.map Neighbor.routerId := by
      rw [List.map_map]
      refine List.map_congr_left fun n _ => ?_
      rw [Function.comp_apply]
      split
      · exact hid n
      · rfl
    exact hmap ▸ h.nodup i (List.mem_of_getElem? hi)
  · obtain ⟨n₀, hn₀, rfl⟩ := List.mem_map.mp hn
    by_cases heq : n₀.routerId = on.routerId
    · have hQ := h.all on.oi i hi n₀ hn₀
      rw [if_pos (by simpa using heq), hid, heq]
      rw [heq] at hQ
      exact hf n₀ (h.holds hi hn₀ heq) hQ
    · rw [if_neg (by simpa using heq)]
      exact hother (fun hon => heq (congrArg NbrRef.routerId hon)) (h.all on.oi i hi n₀ hn₀)

theorem Each.modifyNeighbor (h : Each Q (s, m)) (on : NbrRef) {f : Neighbor → Neighbor}
    (hid : ∀ n, (f n).routerId = n.routerId)
    (hf : ∀ n, s.Holds on n → Q on n.exchange s.events s.timers → Q on (f n).exchange s.events s.timers) :
    Each Q ((Sibling.modifyNeighbor on f : M ρ Unit) s m).2 := h.leadNeighbor on hid (fun _ hQ => hQ) hf

/-- What is known of one neighbor is known along with what holds of all. -/
theorem Each.and_of_holds (h : Each Q (s, m)) {P : Exchange → Prop} (hP : ∀ n, s.Holds on n → P n.exchange) :
    Each (Knowing Q on P) (s, m) := by
  refine ⟨h.nodup, fun oi i hi n hn => ⟨h.all oi i hi n hn, ?_⟩, h.timed⟩
  rintro rfl
  exact hP n (h.holds hi hn rfl)

theorem Each.mono {Q' : NeighborProp} (h : Each Q (s, m)) (hQ : ∀ on e ev ti, Q on e ev ti → Q' on e ev ti) :
    Each Q' (s, m) := ⟨h.nodup, fun oi i hi n hn => hQ _ _ _ _ (h.all oi i hi n hn), h.timed⟩

/-- A neighbor that is met has a router id that no other one has. -/
theorem Each.meet (h : Each Q (s, m)) {oi : Nat} {frame : List UInt8}
    (hnone : (s.interfaceAt oi).neighborLookup (u32At frame 4) = none)
    (hQ : Q ⟨oi, u32At frame 4⟩ (Neighbor.met frame).exchange s.events s.timers) :
    Each Q ((Sibling.modifyInterface oi fun i =>
      { i with neighborList := i.neighborList ++ [Neighbor.met frame] } : M ρ Unit)
      s m).2 := by
  refine h.modifyInterface oi fun i hi => ?_
  rw [State.interfaceAt, List.getD_eq_getElem?_getD, hi] at hnone
  have hnew : ∀ n ∈ i.neighborList, n.routerId ≠ u32At frame 4 := by
    intro n hn hid
    simpa [hid] using List.find?_eq_none.mp hnone n hn
  refine ⟨?_, fun n hn => ?_⟩
  · rw [List.map_append, List.map_singleton]
    refine List.nodup_append.mpr ⟨h.nodup i (List.mem_of_getElem? hi), List.nodup_singleton _, ?_⟩
    rintro id hid _ hnew' rfl
    obtain ⟨n, hn, rfl⟩ := List.mem_map.mp hid
    exact hnew n hn (List.mem_singleton.mp hnew')
  · obtain hn | hn := List.mem_append.mp hn
    · exact h.all oi i hi n hn
    · obtain rfl := List.mem_singleton.mp hn
      exact hQ

/-- What is pending for a neighbor that goes is left pending for nobody. -/
theorem Each.forget (h : Each Q (s, m)) (on : NbrRef)
    (hQ : ∀ on' e ev ti, Q on' e ev ti → Q on' e (ev.map (dangle on)) (ti.map (dangle on))) :
    Each Q ((forgetNeighbor on : M ρ Unit) s m).2 := by
  have herased : Each Q ((Sibling.modifyInterface on.oi fun i => { i with
      neighborList := i.neighborList.eraseP fun n => n.routerId == on.routerId } : M ρ Unit) s m).2 := by
    refine h.modifyInterface on.oi fun i hi => ⟨?_, fun n hn => h.all on.oi i hi n (List.mem_of_mem_eraseP hn)⟩
    exact (h.nodup i (List.mem_of_getElem? hi)).sublist (List.eraseP_sublist.map _)
  refine herased.threads _ (fun t ht => ?_) fun on' e => hQ on' e _ _
  obtain ⟨t, ht', rfl⟩ := List.mem_map.mp ht
  unfold dangle
  split
  · exact .inr trivial
  · exact .inl ht'

end Each

/-! ### Stable properties -/

section Stable

variable {Q : NeighborProp} {on : NbrRef}

/-- A step on the heap. -/
theorem each_of_state {α : Type} {p : M ρ α} (hp : ∀ s m, (p s m).2.1 = s) : Within (Keeping (Each Q)) p := fun s m h => by
  have hstate := hp s m
  exact ⟨hstate.symm ▸ h.nodup, hstate.symm ▸ h.all, hstate.symm ▸ h.timed⟩

theorem each_modifyNeighbor {f : Neighbor → Neighbor} (hid : ∀ n, (f n).routerId = n.routerId)
    (hf : ∀ n ev ti, Q on n.exchange ev ti → Q on (f n).exchange ev ti) :
    Within (Keeping (Each Q)) (modifyNeighbor on f : M ρ Unit) :=
  fun _ _ h => h.modifyNeighbor on hid fun n _ => hf n _ _

section Lasting

variable (hQ : Lasting Q)
include hQ

theorem plain_each : Plain (Keeping (Each (ρ := ρ) Q)) where
  fail := fun _ _ h => ⟨h.nodup, h.all, h.timed⟩
  other hf := fun s _ h => h.of_kernel (hf s)
  interface oi f hf := fun s m h => h.sameNeighbors oi fun i => by
    have hi := hf i
    simp only [Interface.kernel, Prod.mk.injEq] at hi
    exact hi.2.1
  area oa _ hf := fun _ _ h => ⟨h.nodup, h.all, h.timed⟩
  neighbor on f hf := each_modifyNeighbor (fun n => (Prod.mk.inj (hf n)).1) fun n ev ti h => by
    rw [(Prod.mk.inj (hf n)).2]
    exact h
  event ht := fun _ _ h => h.threads _ (fun _ ht => .inl ht) fun _ _ => hQ.event ht
  timer {t} ht := fun _ _ h => h.threads _ (fun t' ht' => by
    obtain ht' | ht' := List.mem_append.mp ht'
    · exact .inl ht'
    · obtain rfl := List.mem_singleton.mp ht'
      cases t' with
      | exchangeDone | loadingDone => exact ht.elim
      | _ => exact .inr trivial) fun _ _ => hQ.timer ht
  gettime := each_of_state fun _ _ => rfl
  ageCurrent a := each_of_state fun _ _ => rfl
  flag a _ hf := each_of_state fun _ _ => rfl
  lsaCopy a := each_of_state fun _ _ => rfl
  lsaCreate age header body := each_of_state fun _ _ => rfl

theorem each_threadOff (t : Option Thread) : Within (Keeping (Each Q)) (threadOff t : M ρ Unit) := by
  cases t with
  | none => exact .pure _
  | some t =>
      refine fun s m h => ?_
      show Each Q (if t ∈ s.events then { s with events := s.events.erase t } else
        { s with timers := s.timers.erase t }, m)
      split
      · exact h.threads _ (fun _ ht => .inl ht) fun _ _ => hQ.offEvent t
      · exact h.threads _ (fun _ ht => .inl (List.mem_of_mem_erase ht)) fun _ _ => hQ.offTimer t

end Lasting

theorem within_meets {α : Type} {p : M ρ α} (hfiled : Within (Keeping Filed) p) (heach : Within (Keeping (Each Q)) p) :
    Within (Keeping (Meets Q)) p := fun s m h => ⟨hfiled s m h.1, heach s m h.2⟩

theorem plain_meets (hQ : Lasting Q) : Plain (Keeping (Meets (ρ := ρ) Q)) where
  fail := within_meets plain_filed.fail (plain_each hQ).fail
  other hf := within_meets (plain_filed.other hf) ((plain_each hQ).other hf)
  interface oi _ hf := within_meets (plain_filed.interface oi hf) ((plain_each hQ).interface oi hf)
  area oa _ hf := within_meets (plain_filed.area oa hf) ((plain_each hQ).area oa hf)
  neighbor on _ hf := within_meets (plain_filed.neighbor on hf) ((plain_each hQ).neighbor on hf)
  event ht := within_meets (plain_filed.event ht) ((plain_each hQ).event ht)
  timer ht := within_meets (plain_filed.timer ht) ((plain_each hQ).timer ht)
  gettime := within_meets plain_filed.gettime (plain_each hQ).gettime
  ageCurrent a := within_meets (plain_filed.ageCurrent a) ((plain_each hQ).ageCurrent a)
  flag a _ hf := within_meets (plain_filed.flag a hf) ((plain_each hQ).flag a hf)
  lsaCopy a := within_meets (plain_filed.lsaCopy a) ((plain_each hQ).lsaCopy a)
  lsaCreate age header body := within_meets (plain_filed.lsaCreate age header body)
    ((plain_each hQ).lsaCreate age header body)

variable (hQ : Stable Q)
include hQ

/-- A list on which nothing depends. -/
theorem each_put {db : Lsdb} (hdb : ∀ on list, db = .neighbor on list → db.Plain ∨ list = .retransList) (as : List Addr) :
    Within (Keeping (Each Q)) (db.put as : M ρ Unit) := by
  cases db with
  | neighbor on list =>
      refine each_modifyNeighbor (fun n => routerId_setList n as list) fun n ev ti h => ?_
      exact hQ.list as (hdb on list rfl) h
  | interface oi => exact fun _ _ h => h.sameNeighbors oi fun _ => rfl
  | interfaceSelf oi => exact fun _ _ h => h.sameNeighbors oi fun _ => rfl
  | interfaceLsupdate oi => exact fun _ _ h => h.sameNeighbors oi fun _ => rfl
  | interfaceLsack oi => exact fun _ _ h => h.sameNeighbors oi fun _ => rfl
  | _ => exact fun _ _ h => ⟨h.nodup, h.all, h.timed⟩

/-- A request that is given up. -/
theorem each_unrequest (a : Addr) (on : NbrRef) :
    Within (Keeping (Each Q)) (lsdbRemove a (.neighbor on .requestList) : M ρ Unit) := by
  intro s m h
  obtain ⟨fault, hassert⟩ := Adjoins.assert_at (decide (a ∈ (Lsdb.neighbor on .requestList).get s)) s m
  have hrun : lsdbRemove a (.neighbor on .requestList) s m =
      ((Lsdb.neighbor on .requestList).put (((Lsdb.neighbor on .requestList).get s).erase a) : M ρ Unit)
        { s with fault := fault } m := by
    have hbind : lsdbRemove a (.neighbor on .requestList) s m =
        (assert (decide (a ∈ (Lsdb.neighbor on .requestList).get s)) >>= fun _ =>
          (Lsdb.neighbor on .requestList).put (((Lsdb.neighbor on .requestList).get s).erase a) : M ρ Unit) s m := rfl
    rw [hbind, run_bind hassert]
  rw [hrun]
  have h' : Each Q ({ s with fault := fault }, m) := ⟨h.nodup, h.all, h.timed⟩
  refine h'.modifyNeighbor on (fun n => routerId_setList n _ _) fun n hn hn' => ?_
  have hget : (Lsdb.neighbor on .requestList).get s = n.requestList :=
    get_neighbor (s := s) (n := n) hn .requestList
  rw [hget]
  exact hQ.unrequest a hn'

variable [RouteCalc ρ]

theorem each_copyTo (a : Addr) {db : Lsdb} (hdb : ∀ on list, db = .neighbor on list → db.Plain ∨ list = .retransList) :
    Within (Keeping (Each Q)) (copyTo a db : M ρ Unit) :=
  .bind ((plain_each hQ.toLasting).lsaCopy a) fun copy => (plain_each hQ.toLasting).lsdbAdd (each_put hQ hdb) copy

/-- An LSA is installed in a database of its scope. -/
theorem meets_installLsa (a : Addr) : Within (Keeping (Meets Q)) (installLsa a : M ρ Unit) := by
  refine fun s m h => ⟨filed_installLsa a s m h.1, ?_⟩
  obtain ⟨m', hrun, -⟩ := filed_stampInstalled a h.1
  have hinstall : (installLsa a : M ρ Unit) s m = (addTo (m.lsa a).lsdb a : M ρ Unit) s m' := by
    have hbind : (installLsa a : M ρ Unit) s m = (stampInstalled a >>= fun _ =>
      addTo (m.lsa a).lsdb a : M ρ Unit) s m := rfl
    rw [hbind, run_bind hrun]
  rw [hinstall]
  have h' : Each Q (s, m') := ⟨h.2.nodup, h.2.all, h.2.timed⟩
  cases hdb : (m.lsa a).lsdb with
  | none => exact (plain_each hQ.toLasting).fail s m' h'
  | some d =>
      have hscoped : d.Scoped := (h.1.tagged a d hdb).scoped
      refine (plain_each hQ.toLasting).lsdbAdd (each_put hQ fun on list hd => ?_) a s m' h'
      subst hd
      exact hscoped.elim

theorem receives_meets : Receives (Keeping (Meets (ρ := ρ) Q)) where
  toPlain := plain_meets hQ.toLasting
  queue a db hdb := within_meets (climbs_filed.queue a hdb) (each_copyTo hQ a fun _ _ _ => .inl hdb)
  unqueue a db hdb := within_meets (climbs_filed.unqueue a hdb)
    ((plain_each hQ.toLasting).lsdbRemove (each_put hQ fun _ _ _ => .inl hdb) a)
  unrequest a on := within_meets (climbs_filed.unrequest a on) (each_unrequest hQ a on)
  retransmit a on := within_meets (filed_retransmit a on) <| .bind (each_of_state fun _ _ => rfl) fun _ =>
    each_copyTo hQ a fun _ _ heq => .inr (by cases heq; rfl)
  tag a d f hf s m hfits h := ⟨climbs_filed.tag a d hf s m hfits h.1, h.2.nodup, h.2.all, h.2.timed⟩
  install a := meets_installLsa hQ a
  setAge a age := within_meets (climbs_filed.setAge a age) (each_of_state fun _ _ => rfl)
  badLsreq on := within_meets (climbs_filed.badLsreq on) fun _ _ h =>
    h.threads _ (fun _ ht => .inl ht) fun _ _ => hQ.badLsreq on
  acked a on := within_meets (climbs_filed.acked a on)
    ((plain_each hQ.toLasting).lsdbRemove (each_put hQ fun _ _ heq => .inr (by cases heq; rfl)) a)
  off t := within_meets (climbs_filed.off t) (each_threadOff hQ.toLasting t)

end Stable

section Reading

variable {on : NbrRef} {n : Neighbor} {Q Q' : NeighborProp}

theorem Lasting.knowing (hQ : Lasting Q) (on : NbrRef) (P : Exchange → Prop) : Lasting (Knowing Q on P) where
  event ht h := ⟨hQ.event ht h.1, h.2⟩
  timer ht h := ⟨hQ.timer ht h.1, h.2⟩
  offEvent t h := ⟨hQ.offEvent t h.1, h.2⟩
  offTimer t h := ⟨hQ.offTimer t h.1, h.2⟩

theorem Meets.mono {x : State ρ × Mem} (h : Meets Q x) (hQ : ∀ on e ev ti, Q on e ev ti → Q' on e ev ti) : Meets Q' x :=
  ⟨h.1, h.2.mono hQ⟩

/-- What keeps the property leads there from more. -/
theorem leads_of_within {p : M ρ Unit} {P : Exchange → Prop} (hp : Within (Keeping (Meets Q)) p) :
    Leads (Meets (Knowing Q on P)) (Meets Q) p := fun s m h => hp s m (h.mono fun _ _ _ _ hQ => hQ.1)

theorem Meets.fault {s : State ρ} {m : Mem} (h : Meets Q (s, m)) (b : Bool) : Meets Q ({ s with fault := b }, m) :=
  ⟨h.1.of_state (fun _ hrow => .inr hrow) rfl, h.2.nodup, h.2.all, h.2.timed⟩

theorem theNeighbor_at (on : NbrRef) (s : State ρ) (m : Mem) :
    ∃ b, theNeighbor on s m = (s.neighborAt on, { s with fault := b }, m) := by
  rw [neighborAt_eq]
  unfold theNeighbor
  cases hn : s.interfaces[on.oi]?.bind (·.neighborLookup on.routerId) with
  | none =>
      refine ⟨true, ?_⟩
      simp only [bind, observe, hn]
      rfl
  | some n =>
      refine ⟨s.fault, ?_⟩
      simp only [bind, observe, hn]
      rfl

/-- What keeps the property first. -/
theorem leads_after {α β : Type} {I J : State ρ × Mem → Prop} {p : M ρ α} {k : α → M ρ β} (hp : Within (Keeping I) p)
    (hk : ∀ a, Leads I J (k a)) : Leads I J (p >>= k) := .bind hp hk

/-- What is read of a neighbor is known of it in what follows. -/
theorem leads_theNeighbor {α : Type} {J : State ρ × Mem → Prop} {k : Neighbor → M ρ α}
    (hk : ∀ n, Leads (Meets (Knowing Q on (· = n.exchange))) J (k n)) :
    Leads (Meets Q) J (theNeighbor on >>= k) := by
  intro s m h
  obtain ⟨b, hrun⟩ := theNeighbor_at on s m
  rw [run_bind hrun]
  refine hk _ _ _ ⟨(h.fault b).1, (h.fault b).2.and_of_holds fun n hn => ?_⟩
  have hn' : s.Holds on n := hn
  rw [hn'.neighborAt_eq]

/-- `ospf6_neighbor_state_change`, where setting the state leads from one property to another. -/
theorem leads_neighborStateChange {I J : State ρ × Mem → Prop} {st : NeighborState} (hI : Plain (Keeping I))
    (hJ : Plain (Keeping J)) (hst : Leads I J (modifyNeighbor on fun n => { n with state := st } : M ρ Unit)) :
    Leads I J (neighborStateChange st on : M ρ Unit) := by
  refine leads_after (hI.theNeighbor on) fun n => .bind hst fun _ => .ite (Within.pure () : Within (Keeping J) _) ?_
  refine .ite (leads_after (hJ.theInterface on.oi) fun i => leads_after (hJ.hostnumOf i) fun hostnum => ?_) ?_
  · exact leads_after (hJ.routerLsaSchedule _ _) fun _ => .when (hJ.intraPrefixLsaScheduleTransit on.oi)
  · exact (Within.pure () : Within (Keeping J) _)

/-- A change of one neighbor leads from what is known of it to a property of all. -/
theorem leads_modifyNeighbor {f : Neighbor → Neighbor} (hfiled : Within (Keeping Filed) (modifyNeighbor on f : M ρ Unit))
    (hid : ∀ n, (f n).routerId = n.routerId) (hother : ∀ {on' e ev ti}, on' ≠ on → Q on' e ev ti → Q' on' e ev ti)
    (hf : ∀ n ev ti, Q on (Neighbor.exchange n) ev ti → Q' on (f n).exchange ev ti) :
    Leads (Meets Q) (Meets Q') (modifyNeighbor on f : M ρ Unit) :=
  fun s m h => ⟨hfiled s m h.1, h.2.leadNeighbor on hid hother fun n _ => hf n _ _⟩

end Reading

end Harry.Sibling
