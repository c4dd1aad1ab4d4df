import Harry.SiblingLockstep

/-! The messages that what is hidden goes into: an initial DbDesc takes its sequence number from the clock, an LSAck and
the retransmitted part of an LSUpdate carry the ages of their LSAs, and the MTU checks of a message that has outgrown its
first buffer depend on where the next one is. Two siblings send the same of these where they read the same seconds, show
the same ages, and come to the same at each check. -/

namespace Harry.Sibling

open Harry.Base Harry.Rfp Prog

variable {ρ : Type} {R : Mem → Mem → Prop}

section Buffers

/-- The MTU checks of a message come out the same for two places of its buffer, as long as they are passed. -/
def SameChecks (full full' : Obuf → Nat → Bool) : Obuf → List Nat → Prop
  | _, [] => True
  | b, n :: ns => full' b n = full b n ∧ (full b n = false → SameChecks full full' (b.put n) ns)

theorem SameChecks.refl (full : Obuf → Nat → Bool) (b : Obuf) (ns : List Nat) : SameChecks full full b ns := by
  induction ns generalizing b with
  | nil => trivial
  | cons n ns ih => exact ⟨rfl, fun _ => ih _⟩

theorem SameChecks.replicate {full full' : Obuf → Nat → Bool} {b : Obuf} {n k l : Nat}
    (h : SameChecks full full' b (List.replicate l n)) (hk : k ≤ l) : SameChecks full full' b (List.replicate k n) := by
  induction k generalizing b l with
  | zero => trivial
  | succ k ih =>
      obtain ⟨l, rfl⟩ := Nat.exists_eq_succ_of_ne_zero (by omega : l ≠ 0)
      exact ⟨h.1, fun hfull => ih (h.2 hfull) (Nat.le_of_succ_le_succ hk)⟩

/-- The two siblings have the same LSAs, and move their buffers in these ways. -/
structure Moved (d d' : Nat → Int) (m m' : Mem) : Prop where
  same : SameInfo m m'
  left : m.moves = d
  right : m'.moves = d'

variable {d d' : Nat → Int}

instance : SeesInfo (Moved d d') := ⟨Moved.same⟩

theorem twin_mtuCheck_bind {α : Type} {R' : α → Mem → Mem → Prop} {full : (Nat → Int) → Obuf → Nat → Bool} {b : Obuf}
    {n : Nat} {k : Bool → M ρ α} (hR : ∀ m m', R m m' → Moved d d' m m') (h : full d' b n = full d b n)
    (hk : Twin R (k (full d b n)) R') : Twin R (mtuCheck full b n >>= k) R' := by
  have hcheck : Twin R (mtuCheck full b n : M ρ Bool) fun v m m' => v = full d b n ∧ R m m' := by
    refine .hidden fun m m' hm => ⟨?_, ?_, hm⟩
    · show full m'.moves b n = full m.moves b n
      rw [(hR m m' hm).left, (hR m m' hm).right, h]
    · show full m.moves b n = full d b n
      rw [(hR m m' hm).left]
  refine Twin.bind hcheck fun v => .of_and fun hv => ?_
  rw [hv]
  exact hk

theorem blind_rfpbufAtAssert (b : Obuf) (offset size : Nat) : Blind R (rfpbufAtAssert b offset size : M ρ Unit) :=
  blind_assert _

/-- The last check of a message; from there on the places of the buffers do not matter. -/
theorem same_rfpbufAtAssert (b : Obuf) (offset size : Nat) :
    Twin (Moved d d') (rfpbufAtAssert b offset size : M ρ Unit) fun _ => SameInfo :=
  Twin.mono (blind_rfpbufAtAssert b offset size) (fun _ _ hR => hR.same) fun _ _ _ hR => hR

theorem blind_dbdescHeaders (ifmtu : UInt32) (b : Obuf) (as : List Addr)
    (h : SameChecks (fullUnsigned ifmtu d) (fullUnsigned ifmtu d') b (List.replicate as.length 20)) :
    Blind (Moved d d') (dbdescHeaders ifmtu b as : M ρ Part) := by
  induction as generalizing b with
  | nil => exact .pure _
  | cons a as ih =>
      have hclear : Blind (Moved d d') (clearAge a : M ρ Unit) :=
        .hidden fun m m' hR => ⟨rfl, hR.same.update (hR.same.info_eq a), hR.left, hR.right⟩
      refine .bind hclear fun _ => twin_mtuCheck_bind (fun _ _ hR => hR) h.1 ?_
      refine .ite (fun _ => Blind.pure _) fun hfull => ?_
      exact .bind (blind_info a) fun _ => .bind (ih _ (h.2 (Bool.not_eq_true _ ▸ hfull))) fun _ => Blind.pure _

theorem blind_lsreqEntries (ifmtu : UInt32) (b : Obuf) (as : List Addr)
    (h : SameChecks (fullUnsigned ifmtu d) (fullUnsigned ifmtu d') b (List.replicate as.length 12)) :
    Blind (Moved d d') (lsreqEntries ifmtu b as : M ρ Part) := by
  induction as generalizing b with
  | nil => exact .pure _
  | cons a as ih =>
      refine twin_mtuCheck_bind (fun _ _ hR => hR) h.1 (.ite (fun _ => Blind.pure _) fun hfull => ?_)
      exact .bind (blind_info a) fun _ => .bind (ih _ (h.2 (Bool.not_eq_true _ ▸ hfull))) fun _ => Blind.pure _

/-- From the hidden states of a step on, with where they move the buffers. -/
theorem twinAt_of_moved {p : State ρ} [SeesInfo R] {α : Type} {m : M ρ α} (P : (Nat → Int) → (Nat → Int) → Prop)
    (hP : ∀ x y, R x y → P x.moves y.moves) (h : ∀ d d', P d d' → Twin (Moved d d') m fun _ => SameInfo) :
    TwinAt p R m fun _ => SameInfo := by
  refine .of_rel fun x y hR => (h _ _ (hP x y hR) p).mono (fun u v heq => ?_) fun _ _ _ h => h
  rw [heq.1, heq.2]
  exact ⟨SeesInfo.sameInfo hR, rfl, rfl⟩

end Buffers

section Dbdesc

/-- Whether a DbDesc to the neighbor is an initial one. -/
def Neighbor.sendsInitial (n : Neighbor) : Bool :=
  !decide (n.state < .exstart) && checkFlag n.dbdescBits dbdescIbit

/-- Whether a DbDesc to the neighbor has headers. -/
def Neighbor.sendsHeaders (n : Neighbor) : Bool :=
  !decide (n.state < .exstart) && !checkFlag n.dbdescBits dbdescIbit

/-- Whether the next DbDesc to a neighbor is an initial one, and whether it has headers. -/
def State.sendsInitial (on : NbrRef) (s : State ρ) : Bool := (s.neighborAt on).sendsInitial

def State.sendsHeaders (on : NbrRef) (s : State ρ) : Bool := (s.neighborAt on).sendsHeaders

/-- The two siblings put the same number of so many headers in a DbDesc. -/
def SameHeaders (i : Interface) (n : Nat) (d d' : Nat → Int) : Prop :=
  SameChecks (fullUnsigned i.ifmtu d) (fullUnsigned i.ifmtu d') .ofDbdesc (List.replicate n 20)

/-- What goes on with the seconds of the clock only. -/
theorem twin_seconds_bind {β : Type} [SeesInfo R] {k : UInt32 → M ρ β}
    (hsec : ∀ m m', R m m' → (m.clock 0).sec32 = (m'.clock 0).sec32) (hk : ∀ sec, Blind SameInfo (k sec)) :
    Twin R (gettime >>= fun tv => k tv.sec32) fun _ => SameInfo := by
  have hread : Twin R (hidden fun m => ((m.clock 0).sec32, m.tick) : M ρ UInt32) fun _ => SameInfo :=
    .hidden fun m m' hR => ⟨(hsec m m' hR).symm, (SeesInfo.sameInfo hR).tick.symm.tick.symm⟩
  exact (Twin.bind hread hk : Twin R (hidden _ >>= k) _)

theorem twinAt_dbdescSend {p : State ρ} [SeesInfo R] (on : NbrRef)
    (hsec : State.sendsInitial on p = true → ∀ m m', R m m' → (m.clock 0).sec32 = (m'.clock 0).sec32)
    (hheaders : State.sendsHeaders on p = true → ∀ m m', R m m' →
      SameHeaders (p.interfaceAt on.oi) (p.neighborAt on).dbdescList.length m.moves m'.moves) :
    TwinAt p R (dbdescSend on : M ρ Unit) fun _ => SameInfo := by
  have hsame : ∀ {α : Type} {m : M ρ α} (q : State ρ), Blind SameInfo m → TwinAt q R m fun _ => SameInfo :=
    fun q h => (h q).mono (fun _ _ hR => SeesInfo.sameInfo hR) fun _ _ _ hR => hR
  refine twinAt_theNeighbor_bind fun b => twinAt_theInterface_bind fun b => ?_
  unfold State.sendsInitial State.sendsHeaders at *
  generalize p.neighborAt on = n at *
  refine .bind (fun _ _ => True) (blind_modifyNeighbor on _ _) (fun _ => trivial) fun _ q _ _ => ?_
  refine .ite (fun _ => hsame q (.pure _)) fun hstate => ?_
  refine .bind (fun _ _ => True) (Blind.when (fun _ => ?_) q) (fun _ => trivial) fun _ r _ _ => ?_
  · exact .bind (blind_threadAddTimer _) fun _ => blind_modifyNeighbor on _
  refine .bind (fun _ _ => True) (blind_theArea _ r) (fun _ => trivial) fun area t _ _ => ?_
  refine .ite (fun hbit => ?_) fun hbit => ?_
  · have hinit : n.sendsInitial = true := by
      simp [Neighbor.sendsInitial, hstate, hbit]
    exact twin_seconds_bind (hsec hinit) (k := fun sec => do
        modifyNeighbor on fun n => { n with dbdescSeqnum := sec }
        rfpbufAtAssert .ofDbdesc 8 24
        msgSend _ messageTypeDbdesc (_ ++ htonl sec))
      (fun sec => .bind (blind_modifyNeighbor on _) fun _ => .bind (blind_rfpbufAtAssert _ _ _) fun _ =>
        blind_msgSend _ _ _) t
  · have hheads : n.sendsHeaders = true := by
      simp [Neighbor.sendsHeaders, hstate, hbit]
    refine twinAt_of_moved (SameHeaders _ _) (hheaders hheads) fun d d' hchecks => ?_
    exact .bind (blind_dbdescHeaders _ _ _ hchecks) fun headers => .bind (same_rfpbufAtAssert _ _ _) fun _ =>
      blind_msgSend _ _ _

section Leaves

variable {β : Type} {g : UInt32 → Neighbor → β} {on : NbrRef}

theorem find?_routerId_map {f : Neighbor → Neighbor} (hid : ∀ n, (f n).routerId = n.routerId) (ns : List Neighbor)
    (r : UInt32) : (ns.map fun n : Neighbor => if n.routerId == r then f n else n).find? (fun n => n.routerId == r) =
      (ns.find? fun n => n.routerId == r).map f := by
  induction ns with
  | nil => rfl
  | cons n ns ih =>
      by_cases h : n.routerId = r
      · simp [h, hid]
      · simpa [h] using ih

/-- What a view of a neighbor, and of the MTU of its interface, shows. -/
def State.view (g : UInt32 → Neighbor → β) (on : NbrRef) (s : State ρ) : β :=
  g (s.interfaceAt on.oi).ifmtu (s.neighborAt on)

/-- A neighbor is changed, unless it has been freed. -/
theorem neighborAt_modifyNeighbor (on : NbrRef) {f : Neighbor → Neighbor} (hid : ∀ n, (f n).routerId = n.routerId)
    (s : State ρ) (m : Mem) : ((modifyNeighbor on f : M ρ Unit) s m).2.1.neighborAt on = f (s.neighborAt on) ∨
      ((modifyNeighbor on f : M ρ Unit) s m).2.1.neighborAt on = default ∧ s.neighborAt on = default := by
  show State.neighborAt { s with interfaces := s.interfaces.modify on.oi _ } on = _ ∨
    State.neighborAt { s with interfaces := s.interfaces.modify on.oi _ } on = _ ∧ _
  unfold State.neighborAt State.interfaceAt
  rw [List.getD_eq_getElem?_getD, List.getD_eq_getElem?_getD, List.getElem?_modify_eq]
  cases s.interfaces[on.oi]? with
  | none => exact .inr ⟨rfl, rfl⟩
  | some i =>
      show ((i.neighborList.map _).find? fun n : Neighbor => n.routerId == on.routerId).getD default =
          f ((i.neighborList.find? fun n => n.routerId == on.routerId).getD default) ∨
        ((i.neighborList.map _).find? fun n : Neighbor => n.routerId == on.routerId).getD default = default ∧
          (i.neighborList.find? fun n => n.routerId == on.routerId).getD default = default
      rw [find?_routerId_map hid]
      cases i.neighborList.find? fun n => n.routerId == on.routerId with
      | none => exact .inr ⟨rfl, rfl⟩
      | some n => exact .inl rfl

theorem ifmtu_modifyNeighbor (f : Neighbor → Neighbor) (s : State ρ) (m : Mem) :
    (((modifyNeighbor on f : M ρ Unit) s m).2.1.interfaceAt on.oi).ifmtu = (s.interfaceAt on.oi).ifmtu := by
  show (State.interfaceAt { s with interfaces := s.interfaces.modify on.oi _ } on.oi).ifmtu = _
  unfold State.interfaceAt
  rw [List.getD_eq_getElem?_getD, List.getD_eq_getElem?_getD, List.getElem?_modify_eq]
  cases s.interfaces[on.oi]? with
  | none => rfl
  | some i => rfl

theorem leaves_modifyNeighbor {f : Neighbor → Neighbor} (hid : ∀ n, (f n).routerId = n.routerId)
    (hf : ∀ ifmtu n, g ifmtu (f n) = g ifmtu n) : Leaves (State.view g on) (modifyNeighbor on f : M ρ Unit) := by
  intro s m
  unfold State.view
  rw [ifmtu_modifyNeighbor]
  obtain h | ⟨h, h'⟩ := neighborAt_modifyNeighbor on hid s m
  · rw [h, hf]
  · rw [h, h']

theorem leaves_fail : Leaves (State.view g on) (fail : M ρ Unit) :=
  .modify fun _ => rfl

theorem leaves_assert (c : Bool) : Leaves (State.view g on) (assert c : M ρ Unit) :=
  .ite (.pure _) leaves_fail

theorem leaves_theInterface (oi : Nat) : Leaves (State.view g on) (theInterface oi : M ρ Interface) := by
  refine .bind .observe fun s => ?_
  cases s.interfaces[oi]? with
  | none => exact .bind leaves_fail fun _ => .pure _
  | some i => exact .pure i

theorem leaves_theNeighbor (on' : NbrRef) : Leaves (State.view g on) (theNeighbor on' : M ρ Neighbor) := by
  refine .bind .observe fun s => ?_
  cases s.interfaces[on'.oi]?.bind (·.neighborLookup on'.routerId) with
  | none => exact .bind leaves_fail fun _ => .pure _
  | some n => exact .pure n

/-- The two siblings put the same number of so many entries in an LSReq. -/
def SameRequests (i : Interface) (n : Nat) (d d' : Nat → Int) : Prop :=
  SameChecks (fullUnsigned i.ifmtu d) (fullUnsigned i.ifmtu d') .ofHeader (List.replicate n 12)

theorem twinAt_lsreqSend {p : State ρ} [SeesInfo R] (on : NbrRef)
    (hm : (p.neighborAt on).state = .exchange ∨ (p.neighborAt on).state = .loading → ∀ m m', R m m' →
      SameRequests (p.interfaceAt on.oi) (p.neighborAt on).requestList.length m.moves m'.moves) :
    TwinAt p R (lsreqSend on : M ρ Unit) fun _ => SameInfo := by
  have hsame : ∀ {α : Type} {m : M ρ α} (q : State ρ), Blind SameInfo m → TwinAt q R m fun _ => SameInfo :=
    fun q h => (h q).mono (fun _ _ hR => SeesInfo.sameInfo hR) fun _ _ _ hR => hR
  refine twinAt_theInterface_bind fun b => ?_
  have hleaves : Leaves (State.view (fun _ n => (n.state, n.requestList)) on)
      (modifyNeighbor on fun n => { n with threadSendLsreq := none } : M ρ Unit) :=
    leaves_modifyNeighbor (fun _ => rfl) fun _ _ => rfl
  refine .bind (fun _ q => State.view (fun _ n => (n.state, n.requestList)) on q = _) (blind_modifyNeighbor on _ _)
    (hleaves _) fun _ q hq _ => ?_
  have hview : ((q.neighborAt on).state, (q.neighborAt on).requestList) =
      ((p.neighborAt on).state, (p.neighborAt on).requestList) := hq
  obtain ⟨hst, hlist⟩ := Prod.mk.inj hview
  rw [← hst, ← hlist] at hm
  refine twinAt_theNeighbor_bind fun b => ?_
  refine .ite (fun _ => hsame _ (.pure _)) fun hstate => .ite (fun _ => hsame _ (blind_threadAddEvent _)) fun _ => ?_
  refine .bind (fun _ _ => True) (blind_threadAddTimer _ _) (fun _ => trivial) fun _ r _ _ => ?_
  refine .bind (fun _ _ => True) (blind_modifyNeighbor on _ r) (fun _ => trivial) fun _ r _ _ => ?_
  have hstate' : (q.neighborAt on).state = .exchange ∨ (q.neighborAt on).state = .loading := by
    by_contra hno
    exact hstate ⟨fun h => hno (.inl h), fun h => hno (.inr h)⟩
  refine twinAt_of_moved (SameRequests _ _) (hm hstate') fun d d' hchecks => ?_
  exact .bind (blind_lsreqEntries _ _ _ hchecks) fun entries => .bind (same_rfpbufAtAssert _ _ _) fun _ =>
    blind_msgSend _ _ _

theorem routerId_setList (n : Neighbor) (as : List Addr) (list : NbrList) : (n.setList as list).routerId = n.routerId := by
  cases list <;> rfl

theorem leaves_put {list : NbrList} (hg : ∀ ifmtu n as, g ifmtu (n.setList as list) = g ifmtu n) (as : List Addr) :
    Leaves (State.view g on) ((Lsdb.neighbor on list).put as : M ρ Unit) :=
  leaves_modifyNeighbor (fun n => routerId_setList n as list) fun ifmtu n => hg ifmtu n as

theorem leaves_lsdbList (db : Lsdb) : Leaves (State.view g on) (lsdbList db : M ρ (List Addr)) :=
  .bind .observe fun _ => .bind (.hidden _) fun _ => .pure _

theorem leaves_lsdbRemove {list : NbrList} (hg : ∀ ifmtu n as, g ifmtu (n.setList as list) = g ifmtu n) (a : Addr) :
    Leaves (State.view g on) (lsdbRemove a (.neighbor on list) : M ρ Unit) :=
  .bind .observe fun _ => .bind (leaves_assert _) fun _ => .bind (leaves_put hg _) fun _ => .pure _

theorem leaves_lsdbRemoveAll {list : NbrList} (hg : ∀ ifmtu n as, g ifmtu (n.setList as list) = g ifmtu n) :
    Leaves (State.view g on) (lsdbRemoveAll (.neighbor on list) : M ρ Unit) :=
  .bind (leaves_lsdbList _) fun _ => .forM fun a _ => leaves_lsdbRemove hg a

theorem leaves_lsaCopy (a : Addr) : Leaves (State.view g on) (lsaCopy a : M ρ Addr) :=
  .bind (.bind (.hidden _) fun _ => .hidden _) fun _ => .hidden _

variable [RouteCalc ρ]

theorem leaves_lsdbAdd_hooks (keyOf : Addr → Option LsaKey) (list : NbrList) (as : List Addr) (a : Addr) :
    Leaves (State.view g on) (match (insertLsa keyOf a as).2 with
      | some old => hookReplace (.neighbor on list) old a
      | none => hookInsert (.neighbor on list) a : M ρ Unit) := by
  cases (insertLsa keyOf a as).2 with
  | none =>
      show Leaves _ (hookInsert (.neighbor on list) a : M ρ Unit)
      rw [hookInsert_list rfl]
      exact .bind (.bind (.hidden _) fun _ => .hidden _) fun _ => .pure _
  | some old =>
      intro p m
      have hlist : (Lsdb.neighbor on list).isList = true := rfl
      obtain ⟨n, -, hrun⟩ := hookReplace_run hlist old a p m
      show State.view g on ((hookReplace (.neighbor on list) old a : M ρ Unit) p m).2.1 = _
      rw [hrun]
      dsimp only
      split
      · rfl
      · rfl

theorem leaves_lsdbAdd {list : NbrList} (hg : ∀ ifmtu n as, g ifmtu (n.setList as list) = g ifmtu n) (a : Addr) :
    Leaves (State.view g on) (lsdbAdd a (.neighbor on list) : M ρ Unit) :=
  .bind .observe fun _ => .bind (.hidden _) fun _ => .bind (leaves_put hg _) fun _ => leaves_lsdbAdd_hooks _ list _ a

theorem leaves_moveSummary (hg : ∀ ifmtu n as list, g ifmtu (Neighbor.setList n as list) = g ifmtu n) (ifmtu size : Nat)
    (as : List Addr) : Leaves (State.view g on) (moveSummary on ifmtu size as : M ρ Unit) := by
  induction as generalizing size with
  | nil => exact .pure _
  | cons a as ih =>
      refine .ite (.pure _) (.bind (leaves_lsaCopy a) fun copy => ?_)
      refine .bind (leaves_lsdbAdd (fun ifmtu n as => hg ifmtu n as _) copy) fun _ => ?_
      exact .bind (leaves_lsdbRemove (fun ifmtu n as => hg ifmtu n as _) a) fun _ => ih _

end Leaves

section Grows

variable {α β : Type} {on : NbrRef}

/-- The list grows by at most so many LSAs. -/
def Grows (on : NbrRef) (k : Nat) (p : M ρ α) : Prop := ∀ s m,
  ((p s m).2.1.neighborAt on).dbdescList.length ≤ (s.neighborAt on).dbdescList.length + k

theorem Grows.of_leaves {p : M ρ α} (h : Leaves (State.view (fun _ n => n.dbdescList) on) p) : Grows on 0 p :=
  fun s m => Nat.le_of_eq (congrArg List.length (h s m))

theorem Grows.bind {k l : Nat} {p : M ρ α} {q : α → M ρ β} (hp : Grows on k p) (hq : ∀ a, Grows on l (q a)) :
    Grows on (k + l) (p >>= q) := by
  intro s m
  have h := hq (p s m).1 (p s m).2.1 (p s m).2.2
  have h' := hp s m
  show (((q _ _ _).2.1).neighborAt on).dbdescList.length ≤ _
  omega

/-- A program that leaves the list alone, and what comes then with its value. -/
theorem Grows.bind_at {l : Nat} {p : M ρ α} {q : α → M ρ β} {s : State ρ} {m : Mem} (hp : Grows on 0 p)
    (hq : Grows on l (q (p s m).1)) :
    (((p >>= q) s m).2.1.neighborAt on).dbdescList.length ≤ (s.neighborAt on).dbdescList.length + l :=
  Nat.le_trans (hq _ _) (Nat.add_le_add_right (hp s m) l)

theorem Grows.mono {k l : Nat} {p : M ρ α} (h : Grows on k p) (hkl : k ≤ l) : Grows on l p :=
  fun s m => Nat.le_trans (h s m) (Nat.add_le_add_left hkl _)

theorem theInterface_val (oi : Nat) (s : State ρ) (m : Mem) : (theInterface oi s m).1 = s.interfaceAt oi := by
  unfold theInterface State.interfaceAt
  rw [List.getD_eq_getElem?_getD]
  cases hoi : s.interfaces[oi]? with
  | none =>
      simp only [bind, observe, hoi]
      rfl
  | some i =>
      simp only [bind, observe, hoi]
      rfl

theorem length_insertLsa (key : Addr → Option LsaKey) (a : Addr) (as : List Addr) :
    (insertLsa key a as).1.length ≤ as.length + 1 := by
  induction as with
  | nil => exact Nat.le_refl _
  | cons b as ih =>
      unfold insertLsa
      split
      · exact Nat.le_succ _
      · split
        · exact Nat.le_refl _
        · exact Nat.succ_le_succ ih

variable [RouteCalc ρ]

theorem grows_lsdbAdd (a : Addr) : Grows on 1 (lsdbAdd a (.neighbor on .dbdescList) : M ρ Unit) := by
  intro s m
  have hhooks : Leaves (State.view (fun _ n => n.dbdescList) on) _ :=
    leaves_lsdbAdd_hooks (ρ := ρ) m.key .dbdescList ((Lsdb.neighbor on .dbdescList).get s) a
  have hput : ∀ as : List Addr, as.length ≤ (s.neighborAt on).dbdescList.length + 1 →
      (((Lsdb.neighbor on .dbdescList).put as s m).2.1.neighborAt on).dbdescList.length ≤
        (s.neighborAt on).dbdescList.length + 1 := by
    intro as has
    obtain h | ⟨h, h'⟩ := neighborAt_modifyNeighbor on (fun n => routerId_setList n as .dbdescList) s m
    · exact Nat.le_trans (Nat.le_of_eq (congrArg (fun n : Neighbor => n.dbdescList.length) h)) has
    · exact Nat.le_trans (Nat.le_of_eq (congrArg (fun n : Neighbor => n.dbdescList.length) (h.trans h'.symm)))
        (Nat.le_succ _)
  exact Nat.le_trans (Nat.le_of_eq (congrArg List.length (hhooks _ _))) (hput _ (length_insertLsa m.key a _))

/-- How many of some LSAs a DbDesc has room for. -/
def headerRoom (ifmtu size n : Nat) : Nat := min n ((ifmtu - size) / 20)

theorem grows_moveSummary (ifmtu size : Nat) (as : List Addr) :
    Grows on (headerRoom ifmtu size as.length) (moveSummary on ifmtu size as : M ρ Unit) := by
  induction as generalizing size with
  | nil => exact (Grows.of_leaves (.pure _)).mono (Nat.zero_le _)
  | cons a as ih =>
      unfold moveSummary
      split
      · exact (Grows.of_leaves (.pure _)).mono (Nat.zero_le _)
      · next hroom =>
          refine (Grows.bind (.of_leaves (leaves_lsaCopy a)) fun copy => .bind (grows_lsdbAdd copy) fun _ =>
            .bind (.of_leaves (leaves_lsdbRemove (fun _ _ _ => rfl) a)) fun _ => ih (size + 20)).mono ?_
          simp only [headerRoom, List.length_cons]
          omega

omit [RouteCalc ρ] in
/-- A list whose LSAs are there is emptied. -/
theorem lsdbRemoveAll_dbdescList {s : State ρ} {m : Mem} (h : ∀ a ∈ (s.neighborAt on).dbdescList, (m.key a).isSome) :
    ((lsdbRemoveAll (.neighbor on .dbdescList) s m).2.1.neighborAt on).dbdescList = [] := by
  have hall : ∀ (as : List Addr) (s : State ρ) (m : Mem), (s.neighborAt on).dbdescList = as →
      (((as.forM fun a => lsdbRemove a (.neighbor on .dbdescList)) s m).2.1.neighborAt on).dbdescList = [] := by
    intro as
    induction as with
    | nil => exact fun s m has => has
    | cons a as ih =>
        intro s m has
        refine ih _ _ ?_
        have hput : ∀ t : State ρ, t.neighborAt on = s.neighborAt on →
            (((Lsdb.neighbor on .dbdescList).put
              ((s.neighborAt on).dbdescList.erase a) t m).2.1.neighborAt on).dbdescList =
              as := by
          intro t ht
          obtain h | ⟨h, h'⟩ := neighborAt_modifyNeighbor on
            (fun n => routerId_setList n ((s.neighborAt on).dbdescList.erase a) .dbdescList) t m
          · refine (congrArg Neighbor.dbdescList h).trans ?_
            show (s.neighborAt on).dbdescList.erase a = as
            rw [has, List.erase_cons_head]
          · rw [← ht, h'] at has
            cases has
        show (((Lsdb.neighbor on .dbdescList).put _ (assert _ s m).2.1 m).2.1.neighborAt on).dbdescList = as
        refine hput _ ?_
        unfold assert
        split <;> rfl
  refine hall _ s m ?_
  show _ = List.filter _ (s.neighborAt on).dbdescList
  exact (List.filter_eq_self.mpr h).symm

end Grows

variable [RouteCalc ρ] {C : Concern} {Φ : Fact} [Persistent Φ]

/-- All of `ospf6_dbdesc_send_newone` but for the message. -/
def dbdescPrepare (on : NbrRef) : M ρ Unit := do
  let as ← lsdbList (.neighbor on .summaryList)
  lsdbRemoveAll (.neighbor on .dbdescList)
  let i ← theInterface on.oi
  moveSummary on i.ifmtu.toNat 32 as
  let n ← theNeighbor on
  when (n.summaryList.isEmpty = true)
    (modifyNeighbor on fun n => { n with dbdescBits := n.dbdescBits &&& ~~~ dbdescMbit })
  let n ← theNeighbor on
  when (checkFlag n.dbdescBits dbdescMsbit = false ∧ checkFlag (n.dbdescLast.getD 7 0) dbdescMbit = false ∧
      checkFlag n.dbdescBits dbdescMbit = false) (threadAddEvent (.exchangeDone on))

theorem dbdescSendNewone_eq (on : NbrRef) :
    (dbdescSendNewone on : M ρ Unit) = dbdescPrepare on >>= fun _ => dbdescSend on := rfl

/-- How a DbDesc to the neighbor begins, and the MTU it has. -/
def dbdescBegins (ifmtu : UInt32) (n : Neighbor) : UInt32 × Bool × Bool := (ifmtu, n.sendsInitial, n.sendsHeaders)

theorem dbdescBegins_setList (ifmtu : UInt32) (n : Neighbor) (as : List Addr) (list : NbrList) :
    dbdescBegins ifmtu (n.setList as list) = dbdescBegins ifmtu n := by
  cases list <;> rfl

theorem leaves_dbdescPrepare (on : NbrRef) : Leaves (State.view dbdescBegins on) (dbdescPrepare on : M ρ Unit) := by
  refine .bind (leaves_lsdbList _) fun as => ?_
  refine .bind (leaves_lsdbRemoveAll fun ifmtu n as => dbdescBegins_setList ifmtu n as _) fun _ => ?_
  refine .bind (leaves_theInterface _) fun i => .bind (leaves_moveSummary dbdescBegins_setList _ _ _) fun _ => ?_
  refine .bind (leaves_theNeighbor on) fun n => .bind (.ite (leaves_modifyNeighbor (fun _ => rfl) fun ifmtu n => ?_)
    (.pure _)) fun _ => ?_
  · have hbit : checkFlag (n.dbdescBits &&& ~~~ dbdescMbit) dbdescIbit = checkFlag n.dbdescBits dbdescIbit := by
      unfold checkFlag
      rw [UInt8.and_assoc]
      rfl
    simp only [dbdescBegins, Neighbor.sendsInitial, Neighbor.sendsHeaders, hbit]
  · exact .bind (leaves_theNeighbor on) fun n => .ite (.modify fun _ => rfl) (.pure _)

theorem dbdescPrepare_length {on : NbrRef} {s : State ρ} {m : Mem}
    (h : ∀ a ∈ (s.neighborAt on).dbdescList, (m.key a).isSome) :
    ((dbdescPrepare on s m).2.1.neighborAt on).dbdescList.length ≤
      headerRoom (s.interfaceAt on.oi).ifmtu.toNat 32 (s.neighborAt on).summaryList.length := by
  have hempty := lsdbRemoveAll_dbdescList h
  have hifmtu : State.view (fun ifmtu _ => ifmtu) on (lsdbRemoveAll (.neighbor on .dbdescList) s m).2.1 = _ :=
    leaves_lsdbRemoveAll (fun _ _ _ => rfl) s m
  show (((do
      let i ← theInterface on.oi
      moveSummary on i.ifmtu.toNat 32 ((s.neighborAt on).summaryList.filter fun a => (m.key a).isSome)
      let n ← theNeighbor on
      when (n.summaryList.isEmpty = true)
        (modifyNeighbor on fun n => { n with dbdescBits := n.dbdescBits &&& ~~~ dbdescMbit })
      let n ← theNeighbor on
      when (checkFlag n.dbdescBits dbdescMsbit = false ∧ checkFlag (n.dbdescLast.getD 7 0) dbdescMbit = false ∧
          checkFlag n.dbdescBits dbdescMbit = false) (threadAddEvent (.exchangeDone on)) : M ρ Unit)
    (lsdbRemoveAll (.neighbor on .dbdescList) s m).2.1
    (lsdbRemoveAll (.neighbor on .dbdescList) s m).2.2).2.1.neighborAt on).dbdescList.length ≤ _
  generalize (lsdbRemoveAll (.neighbor on .dbdescList) s m).2.1 = t at hempty hifmtu
  refine Nat.le_trans (Grows.bind_at (.of_leaves (leaves_theInterface _)) (.bind (grows_moveSummary _ 32 _) fun _ =>
    .of_leaves ?_)) ?_
  · refine .bind (leaves_theNeighbor on) fun n => .bind (.ite (leaves_modifyNeighbor (fun _ => rfl) fun _ _ => rfl)
      (.pure _)) fun _ => .bind (leaves_theNeighbor on) fun n => .ite (.modify fun _ => rfl) (.pure _)
  · have hmtu : (t.interfaceAt on.oi).ifmtu = (s.interfaceAt on.oi).ifmtu := hifmtu
    have hfilter := List.length_filter_le (fun a => (m.key a).isSome) (s.neighborAt on).summaryList
    rw [theInterface_val, hempty, hmtu]
    simp only [headerRoom, List.length_nil]
    omega

theorem blind_dbdescPrepare (on : NbrRef) (hl : ∀ k, C.lists k) :
    Blind (Rel C Φ) (dbdescPrepare on : M ρ Unit) := by
  refine blind_list_bind fun as => .bind (blind_lsdbRemoveAll _) fun _ => .bind (blind_theInterface _) fun i => ?_
  refine .bind (blind_moveSummary on _ _ hl fun a ha => knows_of_mem ha) fun _ => ?_
  refine .bind (blind_theNeighbor on) fun n => .bind (.when fun _ => blind_modifyNeighbor on _) fun _ => ?_
  exact .bind (blind_theNeighbor on) fun n => .when fun _ => blind_threadAddEvent _

theorem twinAt_dbdescSendNewone {p : State ρ} (on : NbrRef) (hl : ∀ k, C.lists k)
    (hs : State.sendsInitial on p = true → C.seqnum)
    (hm : ∀ d d', C.moves d d' → State.sendsHeaders on p = true → SameHeaders (p.interfaceAt on.oi)
      (headerRoom (p.interfaceAt on.oi).ifmtu.toNat 32 (p.neighborAt on).summaryList.length) d d') :
    TwinAt p (Rel C (.all (p.neighborAt on).dbdescList fun _ => True)) (dbdescSendNewone on : M ρ Unit)
      fun _ => SameInfo := by
  rw [dbdescSendNewone_eq]
  refine .bind_of (fun _ q => State.view dbdescBegins on q = State.view dbdescBegins on p ∧
    (q.neighborAt on).dbdescList.length ≤
      headerRoom (p.interfaceAt on.oi).ifmtu.toNat 32 (p.neighborAt on).summaryList.length)
    (blind_dbdescPrepare on hl p) (fun m m' hR => ⟨leaves_dbdescPrepare on p m, dbdescPrepare_length fun a ha => ?_⟩)
    fun _ q hq _ => ?_
  · obtain ⟨k, hk, -⟩ := hR.fact a ha
    rw [hk]
    rfl
  obtain ⟨hmtu, hinitial, hheaders⟩ : (q.interfaceAt on.oi).ifmtu = (p.interfaceAt on.oi).ifmtu ∧
      q.sendsInitial on = p.sendsInitial on ∧ q.sendsHeaders on = p.sendsHeaders on := by
    simpa [State.view, dbdescBegins, State.sendsInitial, State.sendsHeaders] using hq.1
  refine twinAt_dbdescSend on (fun hinit m m' hR => ?_) fun hheads m m' hR => ?_
  · rw [hinitial] at hinit
    exact hR.agree.clocks.seqnum (hs hinit) 0 0
  · rw [hheaders] at hheads
    unfold SameHeaders
    rw [hmtu]
    exact (hm _ _ hR.agree.moves hheads).replicate hq.2

end Dbdesc

/-! ### Ages -/

section Ages

/-- The LSAs of a list that go into an obuf, and what it is then. -/
def fitting (full : Obuf → Nat → Bool) (length : Addr → Nat) : Obuf → List Addr → List Addr × Obuf
  | b, [] => ([], b)
  | b, a :: as =>
    if full b (length a) then ([], b)
    else
      let rest := fitting full length (b.put (length a)) as
      (a :: rest.1, rest.2)

theorem mem_of_fitting {full : Obuf → Nat → Bool} {length : Addr → Nat} {buf : Obuf} {as : List Addr} {b : Addr}
    (h : b ∈ (fitting full length buf as).1) : b ∈ as := by
  induction as generalizing buf with
  | nil => cases h
  | cons a as ih =>
      unfold fitting at h
      split at h
      · cases h
      · rcases List.mem_cons.mp h with rfl | h
        · exact List.mem_cons_self
        · exact List.mem_cons_of_mem a (ih h)

/-- The two siblings show the same ages of some LSAs, whenever in the step they look. -/
def SameAges (as : List Addr) (m m' : Mem) : Prop :=
  ∀ a ∈ as, ∀ n n', (m.lsa a).ageAt (m.clock n) = (m'.lsa a).ageAt (m'.clock n')

/-- The relation of two siblings that are about to send these ages; the lengths are known. -/
structure Sending (d d' : Nat → Int) (length : Addr → Nat) (as : List Addr) (m m' : Mem) : Prop extends
    Moved d d' m m' where
  length_eq : ∀ a, (m.lsa a).header.length.toNat = length a
  ages : SameAges as m m'

variable {d d' : Nat → Int} {length : Addr → Nat} {as bs : List Addr} {a : Addr}

instance : SeesInfo (Sending d d' length as) := ⟨fun h => h.same⟩

theorem Sending.of_subset {m m' : Mem} (h : Sending d d' length as m m') (hbs : ∀ b ∈ bs, b ∈ as) :
    Sending d d' length bs m m' :=
  ⟨h.toMoved, h.length_eq, fun b hb => h.ages b (hbs b hb)⟩

/-- A change of an LSA that is not among them. -/
theorem Sending.update {m m' : Mem} {f f' : Lsa → Lsa} (h : Sending d d' length as m m') (ha : a ∉ as)
    (hf : ∀ l, (f l).toLsaInfo = l.toLsaInfo) (hf' : ∀ l, (f' l).toLsaInfo = l.toLsaInfo) :
    Sending d d' length as (m.update a f) (m'.update a f') where
  same := h.same.update (by rw [hf, hf', h.same.info_eq])
  left := h.left
  right := h.right
  length_eq b := by
    rw [← h.length_eq b, lsa_update]
    split
    · rw [hf]
    · rfl
  ages b hb n n' := by
    have hne : ¬ (a = b ∧ b < m.heap.length) := fun hab => ha (hab.1 ▸ hb)
    have hne' : ¬ (a = b ∧ b < m'.heap.length) := fun hab => ha (hab.1 ▸ hb)
    rw [lsa_update, lsa_update, if_neg hne, if_neg hne']
    exact h.ages b hb n n'

theorem Sending.tick {m m' : Mem} (h : Sending d d' length as m m') : Sending d d' length as m.tick m'.tick :=
  ⟨⟨h.same.tick.symm.tick.symm, h.left, h.right⟩, h.length_eq, fun a ha n n' => h.ages a ha (n + 1) (n' + 1)⟩

/-- The age that is sent of an LSA of an age. -/
def sentAge (transdelay : UInt32) (current : UInt16) : UInt16 :=
  let age := UInt16.ofNat ((current.toNat + transdelay.toNat) % 2 ^ 32)
  if maxage < age then maxage else age

/-- The same age is sent of the first of them, and the others are left alone. -/
theorem twin_ageUpdateToSend (transdelay : UInt32) (ha : a ∉ as) :
    Twin (Sending d d' length (a :: as)) (ageUpdateToSend a transdelay : M ρ UInt16) fun _ => Sending d d' length as := by
  show Twin (Sending d d' length (a :: as)) (hidden fun m =>
    (sentAge transdelay ((m.lsa a).ageAt (m.clock 0)), (m.refresh a).update a fun l =>
      { l with age := sentAge transdelay ((m.lsa a).ageAt (m.clock 0)) }) : M ρ UInt16) _
  refine .hidden fun m m' h => ⟨?_, ?_⟩
  · show sentAge transdelay ((m'.lsa a).ageAt (m'.clock 0)) = sentAge transdelay ((m.lsa a).ageAt (m.clock 0))
    rw [h.ages a List.mem_cons_self 0 0]
  · have hrest : Sending d d' length as m m' := h.of_subset fun b hb => List.mem_cons_of_mem a hb
    have hfresh : Sending d d' length as (m.refresh a) (m'.refresh a) :=
      hrest.tick.update ha (fun _ => rfl) fun _ => rfl
    exact hfresh.update ha (fun _ => rfl) fun _ => rfl

theorem twin_info (a : Addr) : Twin (Sending d d' length as) (info a : M ρ LsaInfo) fun l m m' =>
    l.header.length.toNat = length a ∧ Sending d d' length as m m' := by
  show Twin (Sending d d' length as) (hidden fun m => ((m.lsa a).toLsaInfo, m) : M ρ LsaInfo) _
  exact .hidden fun m m' h => ⟨h.same.info_eq a, h.length_eq a, h⟩

theorem twin_lsackHeaders [RouteCalc ρ] (db : Lsdb) (ifmtu : UInt32) (transdelay : UInt32) (b : Obuf) (hnd : as.Nodup)
    (h : SameChecks (fullUnsigned ifmtu d) (fullUnsigned ifmtu d') b (List.replicate as.length 20)) :
    Twin (Sending d d' length (fitting (fullUnsigned ifmtu d) (fun _ => 20) b as).1)
      (lsackHeaders db ifmtu transdelay b as : M ρ (Part × Bool)) fun _ => SameInfo := by
  induction as generalizing b with
  | nil => exact .pure fun _ _ h => h.same
  | cons a as ih =>
      obtain ⟨ha, hnd⟩ := List.nodup_cons.mp hnd
      unfold fitting
      refine twin_mtuCheck_bind (fun _ _ hR => hR.toMoved) h.1 ?_
      split
      · exact Twin.pure fun _ _ h => h.same
      · next hfull =>
          refine .bind (twin_ageUpdateToSend transdelay fun h => ha (mem_of_fitting h)) fun age => ?_
          refine .bind (blind_info a) fun l => .bind (blind_lsdbRemove a db) fun _ => ?_
          exact .bind (ih _ hnd (h.2 (Bool.not_eq_true _ ▸ hfull))) fun rest => Twin.pure fun _ _ h => h

/-- The ages of the first list are cleared, those of the second are left alone. -/
theorem twin_lsupdateOnce [RouteCalc ρ] (on : NbrRef) (ifmtu : UInt32) (b : Obuf) (hbs : ∀ a ∈ as, a ∉ bs)
    (h : SameChecks (fullSigned ifmtu d) (fullSigned ifmtu d') b (as.map length)) :
    Twin (Sending d d' length bs) (lsupdateOnce on ifmtu b as : M ρ Part) fun part m m' =>
      part.buf = (fitting (fullSigned ifmtu d) length b as).2 ∧ Sending d d' length bs m m' := by
  induction as generalizing b with
  | nil => exact .pure fun _ _ h => ⟨rfl, h⟩
  | cons a as ih =>
      refine .bind (twin_info a) fun l => .of_and fun hl => ?_
      unfold fitting
      rw [hl]
      refine twin_mtuCheck_bind (fun _ _ hR => hR.toMoved) h.1 ?_
      split
      · exact Twin.pure fun _ _ h => ⟨rfl, h⟩
      · next hfull =>
          have hclear : Blind (Sending d d' length bs) (clearAge a : M ρ Unit) :=
            .hidden fun m m' h => ⟨rfl, h.update (hbs a List.mem_cons_self) (fun _ => rfl) fun _ => rfl⟩
          refine .bind hclear fun _ => .bind (blind_lsdbRemove a _) fun _ => ?_
          refine .bind (ih _ (fun b hb => hbs b (List.mem_cons_of_mem a hb))
            (h.2 (Bool.not_eq_true _ ▸ hfull))) fun rest => ?_
          exact Twin.pure fun _ _ h => h

theorem twin_lsupdateRetrans (ifmtu : UInt32) (transdelay : UInt32) (b : Obuf) (hnd : as.Nodup)
    (h : SameChecks (fullSigned ifmtu d) (fullSigned ifmtu d') b (as.map length)) :
    Twin (Sending d d' length (fitting (fullSigned ifmtu d) length b as).1)
      (lsupdateRetrans ifmtu transdelay b as : M ρ Part) fun _ => SameInfo := by
  induction as generalizing b with
  | nil => exact .pure fun _ _ h => h.same
  | cons a as ih =>
      obtain ⟨ha, hnd⟩ := List.nodup_cons.mp hnd
      refine .bind (twin_info a) fun l => .of_and fun hl => ?_
      unfold fitting
      rw [hl]
      refine twin_mtuCheck_bind (fun _ _ hR => hR.toMoved) h.1 ?_
      split
      · exact Twin.pure fun _ _ h => h.same
      · next hfull =>
          refine .bind (twin_ageUpdateToSend transdelay fun h => ha (mem_of_fitting h)) fun age => ?_
          exact .bind (ih _ hnd (h.2 (Bool.not_eq_true _ ▸ hfull))) fun rest => Twin.pure fun _ _ h => h

variable [RouteCalc ρ] {p : State ρ}

/-- The obuf of the next LSUpdate to a neighbor behind the LSAs of `lsupdate_list`. -/
def lsupdateBuf (d : Nat → Int) (length : Addr → Nat) (s : State ρ) (on : NbrRef) : Obuf :=
  (fitting (fullSigned (s.interfaceAt on.oi).ifmtu d) length .ofLsupdate (s.neighborAt on).lsupdateList).2

/-- The LSAs whose ages go into the next LSUpdate to a neighbor. -/
def lsupdateAges (d : Nat → Int) (length : Addr → Nat) (s : State ρ) (on : NbrRef) : List Addr :=
  (fitting (fullSigned (s.interfaceAt on.oi).ifmtu d) length (lsupdateBuf d length s on) (s.neighborAt on).retransList).1

/-- The two siblings put the same LSAs in it. -/
def SameUpdate (d d' : Nat → Int) (length : Addr → Nat) (s : State ρ) (on : NbrRef) : Prop :=
  let full := fullSigned (s.interfaceAt on.oi).ifmtu
  SameChecks (full d) (full d') .ofLsupdate ((s.neighborAt on).lsupdateList.map length) ∧
    SameChecks (full d) (full d') (lsupdateBuf d length s on) ((s.neighborAt on).retransList.map length)

omit [RouteCalc ρ] in
/-- From the hidden states of a step on, with what is known of them. -/
theorem twinAt_of_sending [SeesInfo R] {α : Type} {f : (Nat → Int) → (Addr → Nat) → List Addr} {m : M ρ α}
    {R' : α → Mem → Mem → Prop} (P : (Nat → Int) → (Nat → Int) → (Addr → Nat) → Prop)
    (hP : ∀ x y, R x y → P x.moves y.moves fun a => (x.lsa a).header.length.toNat)
    (hages : ∀ x y, R x y → SameAges (f x.moves fun a => (x.lsa a).header.length.toNat) x y)
    (h : ∀ d d' length, P d d' length → Twin (Sending d d' length (f d length)) m R') : TwinAt p R m R' := by
  refine .of_rel fun x y hR => ?_
  refine (h _ _ _ (hP x y hR) p).mono (fun u v heq => ?_) fun _ _ _ h => h
  rw [heq.1, heq.2]
  exact ⟨⟨SeesInfo.sameInfo hR, rfl, rfl⟩, fun _ => rfl, hages x y hR⟩

theorem twinAt_lsupdateSendNeighbor [SeesInfo R] (on : NbrRef)
    (hnd : ¬ (p.neighborAt on).state < .exchange → ((p.neighborAt on).lsupdateList ++ (p.neighborAt on).retransList).Nodup)
    (hchecks : ¬ (p.neighborAt on).state < .exchange → ∀ m m', R m m' →
      SameUpdate m.moves m'.moves (fun a => (m.lsa a).header.length.toNat) p on)
    (hages : ¬ (p.neighborAt on).state < .exchange → ∀ m m', R m m' →
      SameAges (lsupdateAges m.moves (fun a => (m.lsa a).header.length.toNat) p on) m m') :
    TwinAt p R (lsupdateSendNeighbor on : M ρ Unit) fun _ => SameInfo := by
  have hpure : ∀ q : State ρ, TwinAt q R (pure () : M ρ Unit) fun _ => SameInfo := fun q =>
    Twin.pure (fun _ _ hR => SeesInfo.sameInfo hR) q
  refine twinAt_theNeighbor_bind fun b => twinAt_theInterface_bind fun b => ?_
  refine .bind (fun _ _ => True) (blind_modifyNeighbor on _ _) (fun _ => trivial) fun _ q _ _ => ?_
  refine .ite (fun _ => hpure q) fun hstate => .ite (fun _ => hpure q) fun _ => ?_
  obtain ⟨-, hretrans, hdisj⟩ := List.nodup_append.mp (hnd hstate)
  refine twinAt_of_sending (f := fun d length => lsupdateAges d length p on)
    (fun d d' length => SameUpdate d d' length p on)
    (hchecks hstate) (hages hstate) fun d d' length hsame => ?_
  refine .bind (twin_lsupdateOnce on _ _ (fun a ha hb => ?_) hsame.1) fun once => .of_and fun hbuf => ?_
  · exact hdisj a ha a (mem_of_fitting hb) rfl
  · rw [hbuf]
    refine .bind (twin_lsupdateRetrans _ _ _ hretrans hsame.2) fun retrans =>
      .bind (blind_rfpbufAtAssert _ _ _) fun _ => ?_
    exact .bind (blind_rfpbufAtAssert _ _ _) fun _ => .bind (blind_msgSend _ _ _) fun _ => blind_lsupdateAgain on

/-- The LSAs whose ages go into the next LSAck from a list. -/
def lsackAges (d : Nat → Int) (i : Interface) (as : List Addr) : List Addr :=
  (fitting (fullUnsigned i.ifmtu d) (fun _ => 20) .ofHeader as).1

/-- The two siblings put the same of them in it. -/
def SameAcks (d d' : Nat → Int) (i : Interface) (as : List Addr) : Prop :=
  SameChecks (fullUnsigned i.ifmtu d) (fullUnsigned i.ifmtu d') .ofHeader (List.replicate as.length 20)

theorem twinAt_lsackSendNeighbor [SeesInfo R] (on : NbrRef)
    (hnd : ¬ (p.neighborAt on).state < .exchange → (p.neighborAt on).lsackList.Nodup)
    (hchecks : ¬ (p.neighborAt on).state < .exchange → ∀ m m', R m m' →
      SameAcks m.moves m'.moves (p.interfaceAt on.oi) (p.neighborAt on).lsackList)
    (hages : ¬ (p.neighborAt on).state < .exchange → ∀ m m', R m m' →
      SameAges (lsackAges m.moves (p.interfaceAt on.oi) (p.neighborAt on).lsackList) m m') :
    TwinAt p R (lsackSendNeighbor on : M ρ Unit) fun _ => SameInfo := by
  have hpure : ∀ q : State ρ, TwinAt q R (pure () : M ρ Unit) fun _ => SameInfo := fun q =>
    Twin.pure (fun _ _ hR => SeesInfo.sameInfo hR) q
  refine twinAt_theNeighbor_bind fun b => twinAt_theInterface_bind fun b => ?_
  refine .bind (fun _ _ => True) (blind_modifyNeighbor on _ _) (fun _ => trivial) fun _ q _ _ => ?_
  refine .ite (fun _ => hpure q) fun hstate => .ite (fun _ => hpure q) fun _ => ?_
  refine twinAt_of_sending (f := fun d _ => lsackAges d (p.interfaceAt on.oi) (p.neighborAt on).lsackList)
    (fun d d' _ => SameAcks d d' _ _) (hchecks hstate) (hages hstate) fun d d' length hsame => ?_
  refine .bind (twin_lsackHeaders _ _ _ _ (hnd hstate) hsame) fun acks => .bind (Blind.when fun _ => ?_) fun _ => ?_
  · exact .bind (blind_threadAddEvent _) fun _ => blind_modifyNeighbor on _
  · exact .bind (blind_rfpbufAtAssert _ _ _) fun _ => blind_msgSend _ _ _

theorem twinAt_lsackSendInterface [SeesInfo R] (oi : Nat)
    (hnd : InterfaceState.waiting.code < (p.interfaceAt oi).state.code → (p.interfaceAt oi).lsackList.Nodup)
    (hchecks : InterfaceState.waiting.code < (p.interfaceAt oi).state.code → ∀ m m', R m m' →
      SameAcks m.moves m'.moves (p.interfaceAt oi) (p.interfaceAt oi).lsackList)
    (hages : InterfaceState.waiting.code < (p.interfaceAt oi).state.code → ∀ m m', R m m' →
      SameAges (lsackAges m.moves (p.interfaceAt oi) (p.interfaceAt oi).lsackList) m m') :
    TwinAt p R (lsackSendInterface oi : M ρ Unit) fun _ => SameInfo := by
  have hpure : ∀ q : State ρ, TwinAt q R (pure () : M ρ Unit) fun _ => SameInfo := fun q =>
    Twin.pure (fun _ _ hR => SeesInfo.sameInfo hR) q
  refine twinAt_theInterface_bind fun b => ?_
  refine .bind (fun _ _ => True) (blind_modifyInterface oi _ _) (fun _ => trivial) fun _ q _ _ => ?_
  refine .ite (fun _ => hpure q) fun hstate => .ite (fun _ => hpure q) fun _ => ?_
  have hgt := Nat.lt_of_not_le hstate
  refine twinAt_of_sending (f := fun d _ => lsackAges d (p.interfaceAt oi) (p.interfaceAt oi).lsackList)
    (fun d d' _ => SameAcks d d' _ _) (hchecks hgt) (hages hgt) fun d d' length hsame => ?_
  refine .bind (twin_lsackHeaders _ _ _ _ (hnd hgt) hsame) fun acks => .bind (Blind.when fun _ => ?_) fun _ => ?_
  · exact .bind (blind_threadAddEvent _) fun _ => blind_modifyInterface oi _
  · refine .bind (blind_rfpbufAtAssert _ _ _) fun _ => .bind (blind_msgSend _ _ _) fun _ => ?_
    refine .bind (blind_theInterface oi) fun i => Blind.when fun _ => ?_
    exact .bind (blind_threadAddEvent _) fun _ => blind_modifyInterface oi _

end Ages

end Harry.Sibling
