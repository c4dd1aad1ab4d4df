import Harry.SiblingTwin

/-! The handlers of `ospf6_message.c`, the origination of LSAs and the routing calculation, run in lockstep
by two siblings that agree on what the handler looks at. -/

namespace Harry.Sibling

open Harry.Base Harry.Rfp Prog

variable {ρ : Type} [RouteCalc ρ] {C : Concern} {Φ : Fact} [Persistent Φ] {a : Addr} {k : LsaKey}

section Dbdesc

theorem blind_summarize (on : NbrRef) (ha : Has Φ a k) (hk : C.tests k) :
    Blind (Rel C Φ) (summarize on a : M ρ Unit) := by
  refine .bind (blind_isMaxage ha hk) fun gone => .ite (fun _ => ?_) fun _ => ?_
  · refine .bind (blind_incrementRetransCount a) fun _ => blind_copy_bind ha fun copy => ?_
    exact blind_lsdbAdd _ has_and_at hk
  · exact blind_copy_bind ha fun copy => blind_lsdbAdd _ has_and_at hk

theorem blind_negotiationDone (on : NbrRef) (hk : ∀ k, C.tests k) :
    Blind (Rel C Φ) (negotiationDone on : M ρ Unit) := by
  refine .bind (blind_theNeighbor on) fun n => .ite (fun _ => .pure _) fun _ => ?_
  refine .bind (blind_lsdbRemoveAll _) fun _ => .bind (blind_lsdbRemoveAll _) fun _ => ?_
  refine .bind (blind_clearRetransList on) fun _ => blind_list_bind fun link => ?_
  refine .bind (.forM fun a ha => blind_of_knows (knows_of_mem ha) fun k _ =>
    blind_summarize on has_and_at (hk k)) fun _ => ?_
  refine blind_list_bind fun external => ?_
  refine .bind (.forM fun a ha => blind_of_knows (knows_of_mem ha) fun k _ =>
    blind_summarize on has_and_at (hk k)) fun _ => ?_
  exact .bind (blind_modifyNeighbor on _) fun _ => blind_neighborStateChange _ on

omit [RouteCalc ρ] in
theorem blind_dbdescLsdb {R : Mem → Mem → Prop} (on : NbrRef) (type : UInt16) :
    Blind R (dbdescLsdb on type : M ρ (Option Lsdb)) := by
  unfold dbdescLsdb
  cases lsaScope type with
  | reserved => exact .bind blind_fail fun _ => .pure _
  | _ => exact .pure _

theorem blind_dbdescHeaderRecv (on : NbrRef) (frame : List UInt8) (off : Nat)
    (hl : C.lists (lsaHeaderAt frame off).key) (hg : C.compares (lsaHeaderAt frame off).key (u16At frame off)) :
    Blind (Rel C Φ) (dbdescHeaderRecv on frame off : M ρ Unit) := by
  refine blind_born_bind (LsaInfo.ofHeader (lsaHeaderAt frame off) [] true) hg fun his => ?_
  have hhis : Has (Φ.and ((Fact.at his (lsaHeaderAt frame off).key).and (.shows C his (u16At frame off)))) his
      (lsaHeaderAt frame off).key := fun _ _ hΦ => hΦ.2.1
  have hshow : Shows C (Φ.and ((Fact.at his (lsaHeaderAt frame off).key).and (.shows C his (u16At frame off)))) his
      (u16At frame off) := fun _ _ hΦ => hΦ.2.2
  refine .bind (blind_dbdescLsdb on _) fun lsdb => blind_lookup_bind ?_ fun mine => ?_
  · exact blind_lsdbAdd_list rfl hhis hl
  · refine .bind (blind_lsaCompare hshow.left has_and_at hg) fun c => .ite (fun _ => ?_) fun _ => .pure _
    exact blind_lsdbAdd_list rfl hhis.left hl

theorem blind_dbdescAccept (on : NbrRef) (frame : List UInt8)
    (h : ∀ off ∈ entriesInside frame 28 20, C.lists (lsaHeaderAt frame off).key ∧
      C.compares (lsaHeaderAt frame off).key (u16At frame off)) :
    Blind (Rel C Φ) (dbdescAccept on frame : M ρ Unit) := by
  refine .bind (.forM fun off hoff => blind_dbdescHeaderRecv on frame off (h off hoff).1 (h off hoff).2) fun _ => ?_
  refine .bind (blind_assert _) fun _ => .bind (blind_modifyNeighbor on _) fun _ => ?_
  refine .bind (blind_theNeighbor on) fun n => .bind (.when fun _ => ?_) fun _ => ?_
  · exact .bind (blind_threadAddEvent _) fun _ => blind_modifyNeighbor on _
  · exact .bind (blind_rescheduleDbdesc on _) fun _ => blind_modifyNeighbor on _

/-- A message with which the neighbor opens the exchange as its master. -/
def negotiates (frame : List UInt8) : Bool :=
  checkFlag (u8At frame 23) dbdescIbit && checkFlag (u8At frame 23) dbdescMbit &&
    checkFlag (u8At frame 23) dbdescMsbit && ospf6Length frame == 28

theorem blind_dbdescRecvExstart (on : NbrRef) (frame : List UInt8) (hk : negotiates frame = true → ∀ k, C.tests k) :
    Blind (Rel C Φ) (dbdescRecvExstart on frame : M ρ Unit) := by
  refine .bind (blind_assert _) fun _ => .ite (fun hneg => ?_) fun _ => .pure _
  have hnone : entriesInside frame 28 20 = [] := by
    have hlen : ospf6Length frame = 28 := by
      simp only [Bool.and_eq_true, beq_iff_eq] at hneg
      exact hneg.2
    simp [entriesInside, entryOffsets, hlen]
  refine .bind (blind_assert _) fun _ => .bind (blind_modifyNeighbor on _) fun _ => ?_
  refine .bind (blind_negotiationDone on (hk hneg)) fun _ => .bind (blind_modifyNeighbor on _) fun _ => ?_
  exact blind_dbdescAccept on frame (by simp [hnone])

theorem blind_dbdescRecvExchange (on : NbrRef) (n : Neighbor) (frame : List UInt8)
    (h : ∀ off ∈ entriesInside frame 28 20, C.lists (lsaHeaderAt frame off).key ∧
      C.compares (lsaHeaderAt frame off).key (u16At frame off)) :
    Blind (Rel C Φ) (dbdescRecvExchange on n frame : M ρ Unit) :=
  .bind (blind_assert _) fun _ => .ite (fun _ => blind_rescheduleDbdesc on _) fun _ =>
    .ite (fun _ => blind_threadAddEvent _) fun _ => .ite (fun _ => blind_threadAddEvent _) fun _ =>
      .ite (fun _ => blind_threadAddEvent _) fun _ => .ite (fun _ => blind_threadAddEvent _) fun _ =>
        blind_dbdescAccept on frame h

theorem blind_moveSummary (on : NbrRef) (ifmtu size : Nat) {as : List Addr} (hl : ∀ k, C.lists k)
    (has : ∀ a ∈ as, Knows Φ a fun _ => True) : Blind (Rel C Φ) (moveSummary on ifmtu size as : M ρ Unit) := by
  rename_i hΦ
  induction as generalizing size Φ with
  | nil => exact .pure _
  | cons a as ih =>
      refine .ite (fun _ => .pure _) fun _ => blind_of_knows (has a List.mem_cons_self) fun k _ => ?_
      refine blind_copy_bind has_and_at fun copy => .bind (blind_lsdbAdd_list rfl has_and_at (hl k)) fun _ => ?_
      exact .bind (blind_lsdbRemove a _) fun _ => ih _ fun b hb => (has b (List.mem_cons_of_mem a hb)).left.left

/-- A DbDesc: only in ExStart does it open an exchange, and only in Exchange are its headers looked at. -/
theorem twinAt_dbdescRecvSlave {p : State ρ} (on : NbrRef) (frame : List UInt8)
    (hneg : (p.neighborAt on).state = .init ∨ (p.neighborAt on).state = .exstart → negotiates frame = true →
      ∀ k, C.tests k)
    (hacc : (p.neighborAt on).state = .exchange → ∀ off ∈ entriesInside frame 28 20,
      C.lists (lsaHeaderAt frame off).key ∧ C.compares (lsaHeaderAt frame off).key (u16At frame off)) :
    TwinAt p (Rel C Φ) (dbdescRecvSlave on frame : M ρ Unit) fun _ => Rel C Φ := by
  refine twinAt_theNeighbor_bind fun b => ?_
  cases hstate : (p.neighborAt on).state with
  | down => exact Blind.pure _ _
  | attempt => exact Blind.pure _ _
  | twoway => exact Blind.pure _ _
  | init =>
      refine Blind.bind (blind_twowayReceived on) (fun _ => .bind (blind_theNeighbor on) fun n => ?_) _
      exact .ite (fun _ => blind_dbdescRecvExstart on frame (hneg (.inl hstate))) fun _ => .pure _
  | exstart => exact blind_dbdescRecvExstart on frame (hneg (.inr hstate)) _
  | exchange => exact blind_dbdescRecvExchange on _ frame (hacc hstate) _
  | loading =>
      refine Blind.bind (blind_assert _) (fun _ => ?_) _
      exact .ite (fun _ => blind_rescheduleDbdesc on _) fun _ => blind_threadAddEvent _
  | full =>
      refine Blind.bind (blind_assert _) (fun _ => ?_) _
      exact .ite (fun _ => blind_rescheduleDbdesc on _) fun _ => blind_threadAddEvent _

theorem twinAt_dbdescRecv {p : State ρ} (oi : Nat) (xid : UInt32) (frame : List UInt8)
    (hneg : p.routerId < u32At frame 4 → (p.neighborAt ⟨oi, u32At frame 4⟩).state = .init ∨
      (p.neighborAt ⟨oi, u32At frame 4⟩).state = .exstart → negotiates frame = true → ∀ k, C.tests k)
    (hacc : p.routerId < u32At frame 4 → (p.neighborAt ⟨oi, u32At frame 4⟩).state = .exchange →
      ∀ off ∈ entriesInside frame 28 20,
        C.lists (lsaHeaderAt frame off).key ∧ C.compares (lsaHeaderAt frame off).key (u16At frame off)) :
    TwinAt p (Rel C Φ) (dbdescRecv oi xid frame : M ρ Unit) fun _ => Rel C Φ := by
  refine twinAt_theInterface_bind fun b => .observe_bind (.ite (fun _ => Blind.pure _ _) fun _ => ?_)
  refine twinAt_assert_bind fun b => .ite (fun _ => Blind.pure _ _) fun _ => ?_
  refine .bind (fun _ _ => True) ?_ (fun _ => trivial) fun _ q _ _ => blind_ackSend _ xid q
  exact .ite (fun hlt => twinAt_dbdescRecvSlave _ frame (hneg hlt) (hacc hlt)) fun _ => Blind.pure _ _

end Dbdesc

section Lsreq

theorem blind_lsreqLoop (on : NbrRef) (lsdb : Option Lsdb) {keys : List LsaKey} (hl : ∀ k ∈ keys, C.lists k) :
    Blind (Rel C Φ) (lsreqLoop on lsdb keys : M ρ Bool) := by
  rename_i hΦ
  induction keys generalizing lsdb Φ with
  | nil => exact .pure _
  | cons key keys ih =>
      have hkeys : ∀ k ∈ keys, C.lists k := fun k hk => hl k (List.mem_cons_of_mem key hk)
      refine .ite (fun _ => ih lsdb hkeys) fun _ => blind_lookup_bind ?_ fun a => ?_
      · exact .bind (blind_threadAddEvent _) fun _ => .pure _
      · refine blind_copy_bind has_and_at fun copy => ?_
        exact .bind (blind_lsdbAdd_list rfl has_and_at (hl key List.mem_cons_self)) fun _ => ih _ hkeys

theorem twinAt_lsreqRecv {p : State ρ} (oi : Nat) (frame : List UInt8)
    (hl : ((p.interfaceAt oi).neighborLookup (u32At frame 4)).isSome →
      ∀ k ∈ (entriesInside frame 16 12).map (lsreqKeyAt frame), C.lists k) :
    TwinAt p (Rel C Φ) (lsreqRecv oi frame : M ρ Unit) fun _ => Rel C Φ := by
  refine twinAt_theInterface_bind fun b => .ite (fun _ => Blind.pure _ _) fun hsome => ?_
  refine Blind.bind (blind_lsreqLoop _ none (hl ?_)) (fun atEnd => .ite (fun _ => ?_) fun _ => .pure _) _
  · exact Option.isSome_iff_ne_none.mpr (by simpa using hsome)
  · refine .bind (blind_assert _) fun _ => .bind (blind_theNeighbor _) fun n => .bind (blind_threadOff _) fun _ => ?_
    exact .bind (blind_threadAddEvent _) fun _ => blind_modifyNeighbor _ _

/-- An LSUpdate: its LSAs are looked at where the exchange has begun. -/
theorem twinAt_lsupdateRecv {p : State ρ} (oi : Nat) (frame : List UInt8)
    (h : ¬ (p.neighborAt ⟨oi, u32At frame 4⟩).state < .exchange → ∀ raw ∈ (lsupdateLsas frame).1,
      C.tests raw.header.key ∧ C.compares raw.header.key raw.age ∧ C.arrives raw.header.key) :
    TwinAt p (Rel C Φ) (lsupdateRecv oi frame : M ρ Unit) fun _ => Rel C Φ := by
  refine twinAt_theInterface_bind fun b => ?_
  dsimp only
  have hat : p.neighborAt ⟨oi, u32At frame 4⟩ = ((p.interfaceAt oi).neighborLookup (u32At frame 4)).getD default := rfl
  cases hlook : (p.interfaceAt oi).neighborLookup (u32At frame 4) with
  | none => exact Blind.pure _ _
  | some n =>
      rw [hlook] at hat
      refine .ite (fun _ => Blind.pure _ _) fun hstate => ?_
      have hlsas := h (by rw [hat]; simp only [Option.getD_some]; revert hstate; cases n.state <;> decide)
      refine Blind.bind (blind_assert _) (fun _ => .bind (blind_hostnumOf _) fun hostnum => ?_) _
      refine .bind (.forM fun raw hraw => ?_) fun _ => ?_
      · obtain ⟨hk, hg, harr⟩ := hlsas raw hraw
        exact blind_receiveLsa _ hostnum raw hk hg harr
      · refine .bind (blind_assert _) fun _ => .bind (blind_theNeighbor _) fun n => .ite (fun _ => ?_) fun _ => .pure _
        refine .bind (blind_threadOff _) fun _ => .bind (blind_threadAddEvent _) fun _ => blind_modifyNeighbor _ _

end Lsreq

/-! ### Origination -/

section Originate

omit [RouteCalc ρ] in
theorem blind_withoutMaxage {P : LsaKey → Prop} {as : List Addr} (has : ∀ a ∈ as, Knows Φ a P)
    (hP : ∀ k, P k → C.tests k) : Blind (Rel C Φ) (withoutMaxage as : M ρ (List Addr)) := by
  induction as with
  | nil => exact .pure _
  | cons a as ih =>
      refine .bind (blind_of_knows (has a List.mem_cons_self) fun k hk => blind_isMaxage has_and_at (hP k hk)) fun _ => ?_
      exact .bind (ih fun b hb => has b (List.mem_cons_of_mem a hb)) fun _ => .pure _

omit [RouteCalc ρ] in
theorem blind_maxageTests {as : List Addr} (has : ∀ a ∈ as, Knows Φ a fun _ => True)
    (hk : ∀ k, k.type = lstypeIntraPrefix → C.tests k) :
    Blind (Rel C Φ) (maxageTests as : M ρ (List (LsaInfo × Bool))) := by
  rename_i hΦ
  induction as generalizing Φ with
  | nil => exact .pure _
  | cons a as ih =>
      refine blind_of_knows (has a List.mem_cons_self) fun k _ => blind_info_bind has_and_at fun l hl => ?_
      refine .bind (.ite (fun htype => ?_) fun _ => .pure _) fun gone => ?_
      · refine blind_isMaxage has_and_at (hk k ?_)
        rw [← hl]
        exact htype
      · exact .bind (ih fun b hb => (has b (List.mem_cons_of_mem a hb)).left) fun _ => .pure _

theorem blind_spfCalculation (oa : Nat) (hostnum : UInt32) (hk : ∀ k, k.type = lstypeIntraPrefix → C.tests k) :
    Blind (Rel C Φ) (spfCalculation oa hostnum : M ρ Unit) := by
  refine .bind (blind_modifyArea oa _) fun _ => blind_list_bind fun as => ?_
  refine .bind (blind_maxageTests (fun a ha => knows_of_mem ha) hk) fun lsas => .bind .observe fun s => ?_
  exact .bind blind_infos fun info => blind_routeCalc _

variable {p : State ρ}

/-- An LSA of the sibling's own; it comes with age zero. -/
theorem twinAt_lsaOriginateIn (db : Lsdb) (type : UInt16) (id hostnum : UInt32) (body : List UInt8)
    (hk : C.tests ⟨type, id, p.routerId⟩) (hg : C.compares ⟨type, id, p.routerId⟩ 0) :
    TwinAt p (Rel C Φ) (lsaOriginateIn db type id hostnum body : M ρ Unit) fun _ => Rel C Φ := by
  refine .observe_bind (Blind.bind (blind_newLsSeqnum _ db) (fun seqnum => blind_born_bind _ hg fun a => ?_) p)
  refine .bind (blind_modifyInfo a fun _ => rfl) fun _ => ?_
  exact blind_lsaOriginate (fun _ _ hΦ => hΦ.2.1) (fun _ _ hΦ => hΦ.2.2) hk hg

theorem twinAt_routerLsaInstance (oa : Nat) (hostnum linkStateId : UInt32) (lsdescs : List UInt8)
    (hk : ∀ id, C.tests ⟨lstypeRouter, id, p.routerId⟩) (hg : ∀ id, C.compares ⟨lstypeRouter, id, p.routerId⟩ 0) :
    TwinAt p (Rel C Φ) (routerLsaInstance oa hostnum linkStateId lsdescs : M ρ Unit) fun _ => Rel C Φ :=
  .observe_bind (twinAt_lsaOriginateIn _ _ _ _ _ (hk _) (hg _))

theorem twinAt_routerLsaLoop (oa : Nat) (hostnum : UInt32) (ois : List Nat) (linkStateId : UInt32)
    (lsdescs : List UInt8) (hk : ∀ id, C.tests ⟨lstypeRouter, id, p.routerId⟩)
    (hg : ∀ id, C.compares ⟨lstypeRouter, id, p.routerId⟩ 0) :
    TwinAt p (Rel C Φ) (routerLsaLoop oa hostnum ois linkStateId lsdescs : M ρ _) fun _ => Rel C Φ := by
  induction ois generalizing p linkStateId lsdescs with
  | nil => exact Blind.pure _ p
  | cons oi ois ih =>
      refine .bind (fun _ _ => True) (blind_theInterface oi p) (fun _ => trivial) fun i q _ hq => ?_
      refine .bind (fun _ _ => True) (blind_theArea oa q) (fun _ => trivial) fun area r _ hr => ?_
      have hid : r.routerId = p.routerId := Eq.trans hr hq
      rw [← hid] at hk hg
      refine .observe_bind (.ite (fun _ => ih _ _ hk hg) fun _ => .ite (fun _ => ?_) fun _ => ih _ _ hk hg)
      refine .ite (fun _ => Blind.pure _ r) fun _ => ?_
      refine .bind (fun _ _ => True) (twinAt_routerLsaInstance oa hostnum _ _ hk hg) (fun _ => trivial) fun _ t _ ht => ?_
      have hid : t.routerId = r.routerId := ht
      rw [← hid] at hk hg
      exact ih _ _ hk hg

omit [RouteCalc ρ] in
/-- A change of the age only, as a purge makes it; the agreement on ages is not needed after it. -/
theorem blind_modifyAge (a : Addr) (age : UInt16) :
    Blind SameInfo (modifyLsa a fun l => { l with age := age } : M ρ Unit) :=
  .hidden fun _ _ h => ⟨rfl, h.update (h.info_eq a)⟩

omit [RouteCalc ρ] in
theorem blind_lsaPurge (a : Addr) : Blind SameInfo (lsaPurge a : M ρ Unit) :=
  .bind (blind_info a) fun _ => .bind (blind_getScopedLsdbSelf _) fun _ => .bind (blind_lsdbLookup _ _) fun _ =>
    .bind (blind_removeFrom _ _) fun _ => blind_modifyAge a maxage

omit [RouteCalc ρ] in
theorem blind_purgeRouterLsas (oa : Nat) (linkStateId : UInt32) :
    Blind SameInfo (purgeRouterLsas oa linkStateId : M ρ Unit) :=
  .bind .observe fun _ => .bind (blind_lsdbTypeList _ _) fun _ => .bind blind_keys fun _ =>
    .forM fun a _ => blind_lsaPurge a

omit [RouteCalc ρ] in
theorem blind_purgeOld (old : Option Addr) : Blind SameInfo (purgeOld old : M ρ Unit) := by
  cases old with
  | none => exact .pure _
  | some old => exact blind_lsaPurge old

omit [RouteCalc ρ] [Persistent Φ] in
/-- What is done without looking at ages may follow. -/
theorem twinAt_of_sameInfo {α : Type} {m : M ρ α} (h : Blind SameInfo m) (p : State ρ) :
    TwinAt p (Rel C Φ) m fun _ => SameInfo :=
  (h p).mono (fun _ _ hR => hR.same) fun _ _ _ hR => hR

theorem twinAt_routerLsaOriginate (oa : Nat) (hostnum : UInt32)
    (hk : ∀ id, C.tests ⟨lstypeRouter, id, p.routerId⟩) (hg : ∀ id, C.compares ⟨lstypeRouter, id, p.routerId⟩ 0) :
    TwinAt p (Rel C Φ) (routerLsaOriginate oa hostnum : M ρ Unit) fun _ => SameInfo := by
  refine .modify_bind rfl (.bind (fun _ _ => True) (blind_theArea oa _) (fun _ => trivial) fun area q _ hq => ?_)
  have hid : q.routerId = p.routerId := hq
  rw [← hid] at hk hg
  refine .bind (fun _ _ => True) (twinAt_routerLsaLoop oa hostnum _ 0 [] hk hg) (fun _ => trivial) fun last r _ hr => ?_
  have hid : r.routerId = q.routerId := hr
  rw [← hid] at hk hg
  cases last with
  | none => exact twinAt_of_sameInfo (.pure _) r
  | some last =>
      refine .ite (fun _ => twinAt_of_sameInfo (blind_purgeRouterLsas oa _) r) fun _ => ?_
      refine .bind (fun _ _ => True) (twinAt_routerLsaInstance oa hostnum _ _ hk hg) (fun _ => trivial) fun _ t _ _ => ?_
      exact twinAt_of_sameInfo (blind_purgeRouterLsas oa _) t

theorem twinAt_linkLsaOriginate (oi : Nat) (hk : ∀ id, C.tests ⟨lstypeLink, id, p.routerId⟩)
    (hg : ∀ id, C.compares ⟨lstypeLink, id, p.routerId⟩ 0) :
    TwinAt p (Rel C Φ) (linkLsaOriginate oi : M ρ Unit) fun _ => SameInfo := by
  refine .modify_bind rfl (.bind (fun _ _ => True) (blind_theInterface oi _) (fun _ => trivial) fun i q _ hq => ?_)
  have hid : q.routerId = p.routerId := hq
  rw [← hid] at hk hg
  refine .observe_bind ?_
  cases i.linklocalAddr with
  | none => exact twinAt_of_sameInfo (.bind (blind_lsdbLookup _ _) fun old => blind_purgeOld old) q
  | some linklocalAddr =>
      refine .bind (fun _ _ => True) (blind_theArea i.area q) (fun _ => trivial) fun area r _ hr => ?_
      have hid : r.routerId = q.routerId := hr
      rw [← hid] at hk hg
      exact (twinAt_lsaOriginateIn _ _ _ _ _ (hk _) (hg _)).mono (fun _ _ hR => hR) fun _ _ _ hR => hR.same

theorem twinAt_intraPrefixLsaOriginateTransit (oi : Nat) (hl : ∀ k, k.type = lstypeLink → C.tests k)
    (hk : ∀ id, C.tests ⟨lstypeIntraPrefix, id, p.routerId⟩)
    (hg : ∀ id, C.compares ⟨lstypeIntraPrefix, id, p.routerId⟩ 0) :
    TwinAt p (Rel C Φ) (intraPrefixLsaOriginateTransit oi : M ρ Unit) fun _ => SameInfo := by
  refine .modify_bind rfl (.bind (fun _ _ => True) (blind_theInterface oi _) (fun _ => trivial) fun i q _ hq => ?_)
  have hid : q.routerId = p.routerId := hq
  rw [← hid] at hk hg
  refine .observe_bind (.ite (fun _ => ?_) fun _ => ?_)
  · exact twinAt_of_sameInfo (.bind (blind_lsdbLookup _ _) fun old => blind_purgeOld old) q
  · have hlinks : Blind (Rel C Φ) (lsdbTypeList lstypeLink (.interface oi) >>= withoutMaxage : M ρ (List Addr)) :=
      blind_typeList_bind fun links => blind_withoutMaxage (fun a ha => knows_of_mem ha) hl
    refine .assoc (.bind (fun _ _ => True) (hlinks q) (fun _ => trivial) fun links r _ hr => ?_)
    refine .bind (fun _ _ => True) (blind_infos r) (fun _ => trivial) fun info t _ ht => ?_
    have hid : t.routerId = q.routerId := Eq.trans ht hr
    rw [← hid] at hk hg
    split
    · exact twinAt_of_sameInfo blind_fail t
    · exact twinAt_of_sameInfo (.pure _) t
    · exact (twinAt_lsaOriginateIn _ _ _ _ _ (hk _) (hg _)).mono (fun _ _ hR => hR) fun _ _ _ hR => hR.same

end Originate

end Harry.Sibling
