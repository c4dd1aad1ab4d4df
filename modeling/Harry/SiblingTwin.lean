import Harry.SiblingAges

/-! The databases and the flooding procedure of two siblings that agree on what a step looks at. Every
function is run in lockstep: what it returns and what it does to the compared state is the same at both, and
the two stay in agreement. -/

namespace Harry.Sibling

open Harry.Base Harry.Rfp Prog

variable {ρ : Type} {C : Concern} {Φ Ψ : Fact} {a b : Addr} {k : LsaKey} {g : UInt16}

/-- It is known that an address has an LSA of this key. -/
def Has (Φ : Fact) (a : Addr) (k : LsaKey) : Prop := ∀ m m', Φ m m' → m.key a = some k

/-- The LSA there has come with this age. -/
abbrev Fact.shows (C : Concern) (a : Addr) (g : UInt16) : Fact := .fresh a (C.shows g) (C.shows' g)

/-- It is known that the LSA there has come with an age. -/
def Shows (C : Concern) (Φ : Fact) (a : Addr) (g : UInt16) : Prop := ∀ m m', Φ m m' → Fact.shows C a g m m'

theorem Has.left (h : Has Φ a k) : Has (Φ.and Ψ) a k := fun m m' hΦ => h m m' hΦ.1

theorem Shows.left (h : Shows C Φ a g) : Shows C (Φ.and Ψ) a g := fun m m' hΦ => h m m' hΦ.1

theorem has_and_at : Has (Φ.and (.at a k)) a k := fun _ _ hΦ => hΦ.2

section Lsas

variable [Persistent Φ]

theorem blind_isMaxage (ha : Has Φ a k) (hk : C.tests k) : Blind (Rel C Φ) (isMaxage a : M ρ Bool) := by
  show Blind (Rel C Φ) (hidden fun m => ((m.lsa a).ageAt (m.clock 0) == maxage, m.refresh a) : M ρ Bool)
  refine .hidden fun m m' h => ⟨?_, (h.refresh a).refresh' a⟩
  have htest := (h.agree.lsas a k (ha m m' h.fact)).tests hk 0 0
  exact Bool.eq_iff_iff.mpr (by rw [beq_iff_eq, beq_iff_eq, htest])

theorem blind_headerPrint (a : Addr) : Blind (Rel C Φ) (headerPrint a : M ρ Unit) := by
  show Blind (Rel C Φ) (hidden fun m => ((), m.refresh a) : M ρ Unit)
  exact .hidden fun m m' h => ⟨rfl, (h.refresh a).refresh' a⟩

theorem blind_compareAges (ha : Shows C Φ a g) (hb : Has Φ b k) (hg : C.compares k g) :
    Blind (Rel C Φ) (compareAges a b : M ρ Int) := by
  show Blind (Rel C Φ) (hidden fun m => (compareAge ((m.lsa a).ageAt (m.clock 0))
    (((m.refresh a).lsa b).ageAt ((m.refresh a).clock 0)), (m.refresh a).refresh b) : M ρ Int)
  refine .hidden fun m m' h => ?_
  have h1 := (h.refresh a).refresh' a
  refine ⟨?_, (h1.refresh b).refresh' b⟩
  show compareAge ((m'.lsa a).ageAt (m'.clock 0)) _ = compareAge ((m.lsa a).ageAt (m.clock 0)) _
  have hx := ha m m' h.fact 0
  exact ((h1.agree.lsas b k (hb _ _ h1.fact)).compares g hg _ _ hx.1 hx.2 0 0).symm

/-- A change of flags. -/
theorem blind_modifyInfo {f : LsaInfo → LsaInfo} (a : Addr) (hf : ∀ l, (f l).header = l.header) :
    Blind (Rel C Φ) (modifyInfo a f : M ρ Unit) := by
  refine .hidden fun m m' h => ⟨rfl, ?_⟩
  refine h.update a _ _ (fun l => hf l.toLsaInfo) (congrArg f (h.same.info_eq a)) (fun k hk => ?_) fun S S' hS => hS
  have hag := h.agree.lsas a k hk
  refine ⟨hag.tests, fun hk => ?_, hag.compares, hag.arrives⟩
  simp only [hf]
  exact hag.lists hk

theorem blind_incrementRetransCount (a : Addr) : Blind (Rel C Φ) (incrementRetransCount a : M ρ Unit) :=
  blind_modifyInfo a fun _ => rfl

/-- The copy of an LSA has its key. -/
theorem twin_lsaCopy (ha : Has Φ a k) :
    Twin (Rel C Φ) (lsaCopy a : M ρ Addr) fun copy => Rel C (Φ.and (.at copy k)) := by
  show Twin (Rel C Φ) (hidden fun m => ((m.refresh a).heap.length, (m.refresh a).push ((m.refresh a).lsa a).copy) :
    M ρ Addr) _
  refine .hidden fun m m' h => ?_
  have h1 := (h.refresh a).refresh' a
  have hkey := ha _ _ h1.fact
  have hag := h1.agree.lsas a k hkey
  refine ⟨h1.same.length_eq, ?_⟩
  rw [← header_of_key hkey] at hag ⊢
  refine h1.push ((m.refresh a).lsa a).copy ((m'.refresh a).lsa a).copy ?_
    ⟨hag.tests, hag.lists, hag.compares, hag.arrives⟩
  simp only [Lsa.copy, h1.same.info_eq a]

/-- A new LSA shows the age it was given. -/
theorem twin_lsaBorn {info : LsaInfo} (hg : C.compares info.header.key g) :
    Twin (Rel C Φ) (lsaBorn info g : M ρ Addr) fun a =>
      Rel C (Φ.and ((Fact.at a info.header.key).and (.shows C a g))) := by
  show Twin (Rel C Φ) (hidden fun m => (m.heap.length, m.tick.push (Lsa.born info g (m.clock 0))) : M ρ Addr) _
  refine .hidden fun m m' h => ?_
  have hage : ∀ n, C.shows g ((Lsa.born info g (m.clock 0)).ageAt (m.clock (n + 1))) := fun n =>
    h.agree.clocks.shown g 0 (n + 1) (Nat.zero_le _)
  have hage' : ∀ n, C.shows' g ((Lsa.born info g (m'.clock 0)).ageAt (m'.clock (n + 1))) := fun n =>
    h.agree.clocks.shown' g 0 (n + 1) (Nat.zero_le _)
  have h1 := h.tick.tick'
  refine ⟨h.same.length_eq, (h1.push (Lsa.born info g (m.clock 0)) (Lsa.born info g (m'.clock 0)) rfl
    (.of_shows h1.agree.clocks hg hage hage' rfl rfl)).mono fun hΦ => ?_⟩
  refine ⟨hΦ.1, hΦ.2, fun n => ?_⟩
  have hlen : m.heap.length = m'.tick.heap.length := h.same.length_eq.symm
  constructor
  · rw [lsa_push, if_pos (show m.heap.length = m.tick.heap.length from rfl)]
    exact hage n
  · rw [lsa_push, if_pos hlen]
    exact hage' n

theorem blind_stampInstalled (a : Addr) : Blind (Rel C Φ) (stampInstalled a : M ρ Unit) := by
  show Blind (Rel C Φ) (hidden fun m => ((), (m.tick.refresh a).update a fun l => { l with installed := m.clock 0 }) :
    M ρ Unit)
  refine .hidden fun m m' h => ⟨rfl, ?_⟩
  have h1 := (h.tick.tick'.refresh a).refresh' a
  refine h1.update a (fun l => { l with installed := m.clock 0 }) (fun l => { l with installed := m'.clock 0 })
    (fun _ => rfl) (h1.same.info_eq a) (fun j hj => ?_) fun S S' hS => hS
  refine (h1.agree.lsas a j hj).stamp fun k hk n n' => ?_
  exact h.agree.clocks.arrives k hk 0 (n + 2) 0 (n' + 2) (Nat.zero_le _) (Nat.zero_le _)

theorem blind_arrivedEarly {old : Option Addr} (ho : ∀ a, old = some a → Has Φ a k) (hk : C.arrives k) :
    Blind (Rel C Φ) (arrivedEarly old : M ρ Bool) := by
  cases old with
  | none => exact .pure _
  | some a =>
      show Blind (Rel C Φ) (hidden fun m => ((m.lsa a).arrivedAt (m.clock 0), m.tick) : M ρ Bool)
      refine .hidden fun m m' h => ⟨?_, h.tick.tick'⟩
      exact ((h.agree.lsas a k (ho a rfl m m' h.fact)).arrives hk 0 0).symm

end Lsas

section Known

variable {α : Type} {key : LsaKey}

/-- What was known in between may be forgotten. -/
theorem forget {m : M ρ α} (h : Blind (Rel C (Φ.and Ψ)) m) : Twin (Rel C (Φ.and Ψ)) m fun _ => Rel C Φ :=
  Twin.mono h (fun _ _ hR => hR) fun _ _ _ hR => hR.mono And.left

theorem blind_info_bind {f : LsaInfo → M ρ α} (ha : Has Φ a k) (h : ∀ l, l.header.key = k → Blind (Rel C Φ) (f l)) :
    Blind (Rel C Φ) (info a >>= f) := by
  have hinfo : Twin (Rel C Φ) (info a : M ρ LsaInfo) fun l m m' => l.header.key = k ∧ Rel C Φ m m' := by
    show Twin (Rel C Φ) (hidden fun m => ((m.lsa a).toLsaInfo, m) : M ρ LsaInfo) _
    exact .hidden fun m m' hR => ⟨hR.same.info_eq a, header_of_key (ha m m' hR.fact), hR⟩
  exact Twin.bind hinfo fun l => .of_and fun hl => h l hl

theorem blind_copy_bind [Persistent Φ] {f : Addr → M ρ α} (ha : Has Φ a k)
    (h : ∀ copy, Blind (Rel C (Φ.and (.at copy k))) (f copy)) : Blind (Rel C Φ) (lsaCopy a >>= f) :=
  Twin.bind (twin_lsaCopy ha) fun copy => forget (h copy)

theorem blind_born_bind [Persistent Φ] (info : LsaInfo) {f : Addr → M ρ α} (hg : C.compares info.header.key g)
    (h : ∀ a, Blind (Rel C (Φ.and ((Fact.at a info.header.key).and (.shows C a g)))) (f a)) :
    Blind (Rel C Φ) (lsaBorn info g >>= f) :=
  Twin.bind (twin_lsaBorn hg) fun a => forget (h a)

theorem twin_keys : Twin (Rel C Φ) (keys : M ρ (Addr → Option LsaKey)) fun keyOf m m' =>
    Rel C Φ m m' ∧ keyOf = m.key :=
  .hidden fun _ _ hR => ⟨hR.same.key_eq, hR, rfl⟩

/-- A lookup finds nothing, or an LSA of the key it was for. -/
theorem blind_lookup_bind {db : Option Lsdb} {f : Option Addr → M ρ α} (hn : Blind (Rel C Φ) (f none))
    (hs : ∀ a, Blind (Rel C (Φ.and (.at a key))) (f (some a))) : Blind (Rel C Φ) (lsdbLookup key db >>= f) := by
  have hlook : Twin (Rel C Φ) (lsdbLookup key db : M ρ (Option Addr)) fun found m m' =>
      Rel C Φ m m' ∧ ∀ a, found = some a → m.key a = some key := by
    cases db with
    | none => exact .pure fun m m' hR => ⟨hR, nofun⟩
    | some db =>
        refine .bind Blind.observe fun s => .bind twin_keys fun keyOf => .pure fun m m' hR => ⟨hR.1, fun a ha => ?_⟩
        rw [← hR.2]
        simpa using List.find?_some ha
  refine Twin.bind hlook fun found => ?_
  cases found with
  | none => exact Twin.mono hn (fun _ _ hR => hR.1) fun _ _ _ hR => hR
  | some a =>
      exact Twin.mono (forget (hs a)) (fun _ _ hR => hR.1.mono fun hΦ => ⟨hΦ, hR.2 a rfl⟩) fun _ _ _ hR => hR

/-- The addresses of a list have LSAs, with keys of a kind. -/
def Fact.all (as : List Addr) (P : LsaKey → Prop) : Fact := fun m _ => ∀ a ∈ as, ∃ k, m.key a = some k ∧ P k

instance (as : List Addr) (P : LsaKey → Prop) : Persistent (.all as P) :=
  ⟨fun h hall a ha => (hall a ha).imp fun k hk => ⟨h.key a k hk.1, hk.2⟩⟩

/-- It is known that an address has an LSA with a key of a kind. -/
def Knows (Φ : Fact) (a : Addr) (P : LsaKey → Prop) : Prop := ∀ m m', Φ m m' → ∃ k, m.key a = some k ∧ P k

theorem Knows.left {P : LsaKey → Prop} (h : Knows Φ a P) : Knows (Φ.and Ψ) a P := fun m m' hΦ => h m m' hΦ.1

theorem knows_of_mem {as : List Addr} {P : LsaKey → Prop} (ha : a ∈ as) : Knows (Φ.and (.all as P)) a P :=
  fun _ _ hΦ => hΦ.2 a ha

/-- A program about such an LSA. -/
theorem blind_of_knows {P : LsaKey → Prop} {m : M ρ α} (ha : Knows Φ a P)
    (h : ∀ k, P k → Blind (Rel C (Φ.and (.at a k))) m) : Blind (Rel C Φ) m := by
  refine fun p => .of_rel fun n n' hR => ?_
  obtain ⟨k, hk, hP⟩ := ha n n' hR.fact
  refine (forget (h k hP) p).mono (fun _ _ heq => ?_) fun _ _ _ hR => hR
  rw [heq.1, heq.2]
  exact hR.mono fun hΦ => ⟨hΦ, hk⟩

theorem blind_list_bind {db : Lsdb} {f : List Addr → M ρ α}
    (h : ∀ as, Blind (Rel C (Φ.and (.all as fun _ => True))) (f as)) : Blind (Rel C Φ) (lsdbList db >>= f) := by
  have hlist : Twin (Rel C Φ) (lsdbList db : M ρ (List Addr)) fun as => Rel C (Φ.and (.all as fun _ => True)) := by
    refine .bind Blind.observe fun s => .bind twin_keys fun keyOf => .pure fun m m' hR => ?_
    refine hR.1.mono fun hΦ => ⟨hΦ, fun a ha => ?_⟩
    obtain ⟨k, hk⟩ := Option.isSome_iff_exists.mp (List.mem_filter.mp ha).2
    exact ⟨k, hR.2 ▸ hk, trivial⟩
  exact Twin.bind hlist fun as => forget (h as)

theorem blind_typeList_bind {type : UInt16} {db : Lsdb} {f : List Addr → M ρ α}
    (h : ∀ as, Blind (Rel C (Φ.and (.all as fun k => k.type = type))) (f as)) :
    Blind (Rel C Φ) (lsdbTypeList type db >>= f) := by
  have hlist : Twin (Rel C Φ) (lsdbTypeList type db : M ρ (List Addr)) fun as =>
      Rel C (Φ.and (.all as fun k => k.type = type)) := by
    refine .bind (blind_lsdbList db) fun as => .bind twin_keys fun keyOf => .pure fun m m' hR => ?_
    refine hR.1.mono fun hΦ => ⟨hΦ, fun a ha => ?_⟩
    have htype := (List.mem_filter.mp ha).2
    cases hkey : keyOf a with
    | none => simp [hkey] at htype
    | some k => exact ⟨k, hR.2 ▸ hkey, by simpa [hkey] using htype⟩
  exact Twin.bind hlist fun as => forget (h as)

end Known

section Databases

variable [Persistent Φ]

theorem insertLsa_snd {key : Addr → Option LsaKey} {as : List Addr} (h : (insertLsa key a as).2 = some b) :
    key b = key a := by
  induction as with
  | nil => cases h
  | cons c as ih =>
      unfold insertLsa at h
      split at h
      · next heq =>
          cases h
          exact heq
      · split at h
        · cases h
        · exact ih h

theorem blind_lsaIsChanged (ha : Has Φ a k) (hb : Has Φ b k) (hk : C.tests k) :
    Blind (Rel C Φ) (lsaIsChanged a b : M ρ Bool) :=
  .bind (blind_isMaxage ha hk) fun _ => .bind (blind_isMaxage hb hk) fun _ => .bind blind_infos fun _ =>
    .ite (fun _ => .pure _) fun _ => .ite (fun _ => .pure _) fun _ => .bind (blind_assert _) fun _ => .pure _

theorem blind_lsaIsDiffer (ha : Has Φ a k) (hb : Has Φ b k) (hk : C.tests k) :
    Blind (Rel C Φ) (lsaIsDiffer a b : M ρ Bool) :=
  .bind blind_infos fun _ => .bind (blind_assert _) fun _ => .bind (blind_isMaxage ha hk) fun _ =>
    .bind (blind_isMaxage hb hk) fun _ => .ite (fun _ => .pure _) fun _ => .ite (fun _ => .pure _) fun _ => .pure _

theorem blind_lsaCompare (ha : Shows C Φ a g) (hb : Has Φ b k) (hg : C.compares k g) :
    Blind (Rel C Φ) (lsaCompare a b : M ρ Int) :=
  .bind blind_infos fun _ => .bind (blind_assert _) fun _ => .ite (fun _ => .pure _) fun _ =>
    .ite (fun _ => .pure _) fun _ => .ite (fun _ => .pure _) fun _ => .ite (fun _ => .pure _) fun _ =>
      blind_compareAges ha hb hg

variable [RouteCalc ρ]

theorem blind_intraPrefixLsaAdd (oa : Nat) (ha : Has Φ a k) (hk : C.tests k) :
    Blind (Rel C Φ) (intraPrefixLsaAdd oa a : M ρ Unit) :=
  .bind (blind_isMaxage ha hk) fun _ => .ite (fun _ => .pure _) fun _ => .bind (blind_info a) fun _ =>
    .bind .observe fun _ => blind_routeCalc _

theorem blind_areaLsdbHookAdd (oa : Nat) (ha : Has Φ a k) (hk : C.tests k) :
    Blind (Rel C Φ) (areaLsdbHookAdd oa a : M ρ Unit) :=
  .bind (blind_info a) fun _ => .ite (fun _ => blind_spfSchedule _ _) fun _ =>
    .ite (fun _ => blind_intraPrefixLsaAdd oa ha hk) fun _ => .pure _

theorem blind_hookAdd (db : Lsdb) (ha : Has Φ a k) (hk : C.tests k) : Blind (Rel C Φ) (hookAdd db a : M ρ Unit) := by
  cases db with
  | interface oi => exact blind_interfaceLsdbHook oi a
  | area oa => exact blind_areaLsdbHookAdd oa ha hk
  | _ => exact .pure _

theorem blind_hookReplace (db : Lsdb) (hb : Has Φ b k) (ha : Has Φ a k) (hk : C.tests k) :
    Blind (Rel C Φ) (hookReplace db b a : M ρ Unit) := by
  refine .bind (blind_lsaIsChanged hb ha hk) fun changed => .when fun _ => ?_
  refine .bind (blind_isMaxage ha hk) fun gone => .ite (fun _ => ?_) fun _ => ?_
  · exact .bind (blind_hookRemove db b) fun _ => blind_hookRemove db a
  · refine .bind (blind_isMaxage hb hk) fun back => .ite (fun _ => blind_hookAdd db ha hk) fun _ => ?_
    exact .bind (blind_hookRemove db b) fun _ => blind_hookAdd db ha hk

theorem blind_hookInsert (db : Lsdb) (ha : Has Φ a k) (hk : C.tests k) :
    Blind (Rel C Φ) (hookInsert db a : M ρ Unit) :=
  .bind (blind_isMaxage ha hk) fun _ => .ite (fun _ => blind_hookRemove db a) fun _ => blind_hookAdd db ha hk

omit [Persistent Φ] in
/-- An LSA is added in lockstep if the hooks are run in lockstep, whatever it takes the place of. -/
theorem blind_lsdbAdd_of_hooks (db : Lsdb) (ha : Has Φ a k)
    (hr : ∀ old, Blind (Rel C (Φ.and (.at old k))) (hookReplace db old a : M ρ Unit))
    (hi : Blind (Rel C Φ) (hookInsert db a : M ρ Unit)) : Blind (Rel C Φ) (lsdbAdd a db : M ρ Unit) := by
  refine Twin.bind Blind.observe fun s => Twin.bind twin_keys fun keyOf => ?_
  refine Twin.bind (blind_put _ db) fun _ => ?_
  cases hold : (insertLsa keyOf a (db.get s)).2 with
  | none => exact Twin.mono hi (fun _ _ hR => hR.1) fun _ _ _ hR => hR
  | some old =>
      refine Twin.mono (forget (hr old)) (fun m m' hR => hR.1.mono fun hΦ => ⟨hΦ, ?_⟩) fun _ _ _ hR => hR
      show m.key old = some k
      rw [← ha m m' hΦ, ← hR.2]
      exact insertLsa_snd hold

theorem blind_lsdbAdd (db : Lsdb) (ha : Has Φ a k) (hk : C.tests k) : Blind (Rel C Φ) (lsdbAdd a db : M ρ Unit) :=
  blind_lsdbAdd_of_hooks db ha (fun _ => blind_hookReplace db has_and_at ha.left hk) (blind_hookInsert db ha hk)

end Databases

/-! ### Lists

A list has no hooks, so that the ages of the LSAs on it decide nothing; but two of the same key that are both of
`MAXAGE`, or both not, are compared byte by byte, and an LSA without a body stops the sibling there. -/

section Lists

def Lsdb.isList : Lsdb → Bool
  | .interface _ => false
  | .area _ => false
  | _ => true

/-- Some ages have been brought up to date. -/
inductive Refreshes (m : Mem) : Mem → Prop
  | refl : Refreshes m m
  | step {n : Mem} (a : Addr) : Refreshes m n → Refreshes m (n.refresh a)

variable {db : Lsdb} {m m' n n' : Mem}

theorem Refreshes.trans (h : Refreshes m m') (hn : Refreshes m' n) : Refreshes m n := by
  induction hn with
  | refl => exact h
  | step a _ ih => exact ih.step a

theorem Rel.refreshes [Persistent Φ] (h : Rel C Φ m m') (hn : Refreshes m n) (hn' : Refreshes m' n') :
    Rel C Φ n n' := by
  have hleft : Rel C Φ n m' := by
    induction hn with
    | refl => exact h
    | step a _ ih => exact ih.refresh a
  induction hn' with
  | refl => exact hleft
  | step a _ ih => exact ih.refresh' a

/-- Whether `ospf6_lsa_is_changed` gets to an LSA without a body. -/
def clash (m : Mem) (b a : Addr) : Bool :=
  ((m.lsa b).ageAt (m.clock 0) == maxage) ==
      (((m.refresh b).lsa a).ageAt ((m.refresh b).clock 0) == maxage) &&
    (m.lsa b).header.length == (m.lsa a).header.length && decide ((m.lsa b).header.length.toNat ≤ 20)

theorem info_refresh (m : Mem) (b a : Addr) : ((m.refresh b).lsa a).toLsaInfo = (m.lsa a).toLsaInfo := by
  show ((m.tick.update b _).lsa a).toLsaInfo = _
  rw [lsa_update]
  split <;> rfl

theorem lsaIsChanged_run (b a : Addr) (p : State ρ) (m : Mem) : ∃ changed, lsaIsChanged b a p m =
    (changed, if clash m b a then { p with fault := true } else p, (m.refresh b).refresh a) := by
  have hb : (((m.refresh b).refresh a).lsa b).toLsaInfo = (m.lsa b).toLsaInfo := by
    rw [info_refresh, info_refresh]
  have ha : (((m.refresh b).refresh a).lsa a).toLsaInfo = (m.lsa a).toLsaInfo := by
    rw [info_refresh, info_refresh]
  unfold clash
  generalize hmb : ((m.lsa b).ageAt (m.clock 0) == maxage) = mb
  generalize hma : (((m.refresh b).lsa a).ageAt ((m.refresh b).clock 0) == maxage) = ma
  show ∃ changed, (if (((m.lsa b).ageAt (m.clock 0) == maxage) !=
      (((m.refresh b).lsa a).ageAt ((m.refresh b).clock 0) == maxage)) = true then _ else
    if ((((m.refresh b).refresh a).lsa b).toLsaInfo.header.length !=
      (((m.refresh b).refresh a).lsa a).toLsaInfo.header.length) = true then _ else
    (do
      assert (decide (20 < (((m.refresh b).refresh a).lsa b).toLsaInfo.header.length.toNat))
      pure ((((m.refresh b).refresh a).lsa b).toLsaInfo.body !=
        (((m.refresh b).refresh a).lsa a).toLsaInfo.body)) : M ρ Bool) p ((m.refresh b).refresh a) = _
  rw [hmb, hma, hb, ha]
  by_cases hage : mb = ma
  · by_cases hlen : (m.lsa b).header.length = (m.lsa a).header.length
    · by_cases hlong : 20 < (m.lsa b).header.length.toNat
      · refine ⟨(m.lsa b).body != (m.lsa a).body, ?_⟩
        rw [if_neg (by simp [hage]), if_neg (by simp [hlen]), if_neg (by simp; omega)]
        show ((assert (decide _) : M ρ Unit) >>= _) p _ = _
        rw [decide_eq_true hlong]
        rfl
      · refine ⟨(m.lsa b).body != (m.lsa a).body, ?_⟩
        rw [if_neg (by simp [hage]), if_neg (by simp [hlen]), if_pos (by simp [hage, hlen]; rw [← hlen]; omega)]
        show ((assert (decide _) : M ρ Unit) >>= _) p _ = _
        rw [decide_eq_false hlong]
        rfl
    · refine ⟨true, ?_⟩
      rw [if_neg (by simp [hage]), if_pos (by simp [hlen]), if_neg (by simp [hlen])]
      rfl
  · refine ⟨true, ?_⟩
    rw [if_pos (by simp [hage]), if_neg (by simp [hage])]
    rfl

theorem hookRemove_list (hdb : db.isList = true) (a : Addr) : (hookRemove db a : M ρ Unit) = pure () := by
  cases db with
  | interface oi => cases hdb
  | area oa => cases hdb
  | _ => rfl

variable [RouteCalc ρ]

theorem hookAdd_list (hdb : db.isList = true) (a : Addr) : (hookAdd db a : M ρ Unit) = pure () := by
  cases db with
  | interface oi => cases hdb
  | area oa => cases hdb
  | _ => rfl

theorem hookChange_run (hdb : db.isList = true) (b a : Addr) (p : State ρ) (m : Mem) :
    ∃ n, Refreshes m n ∧ hookChange db b a p m = ((), p, n) := by
  simp only [hookChange, hookRemove_list hdb, hookAdd_list hdb]
  show ∃ n, _ ∧ (if ((m.lsa a).ageAt (m.clock 0) == maxage) = true then _ else _ : M ρ Unit) p (m.refresh a) = _
  split
  · exact ⟨_, .step a .refl, rfl⟩
  · refine ⟨_, .step b (.step a .refl), ?_⟩
    show (if _ then _ else _ : M ρ Unit) p ((m.refresh a).refresh b) = _
    split <;> rfl

/-- The two siblings come to the same LSAs without a body. -/
theorem Rel.clash_eq [Persistent Φ] (h : Rel C Φ m m') (hb : Has Φ b k) (ha : Has Φ a k) (hk : C.lists k) :
    clash m' b a = clash m b a := by
  have h1 := (h.refresh b).refresh' b
  have hlb : (m'.lsa b).header.length = (m.lsa b).header.length := congrArg (·.header.length) (h.same.info_eq b)
  have hla : (m'.lsa a).header.length = (m.lsa a).header.length := congrArg (·.header.length) (h.same.info_eq a)
  have hl1 : ((m.refresh b).lsa a).header.length = (m.lsa a).header.length :=
    congrArg (·.header.length) (info_refresh m b a)
  unfold clash
  rw [hlb, hla]
  by_cases hlen : (m.lsa b).header.length = (m.lsa a).header.length
  · by_cases hlong : (m.lsa b).header.length.toNat ≤ 20
    · have hageb : (m'.lsa b).ageAt (m'.clock 0) = maxage ↔ (m.lsa b).ageAt (m.clock 0) = maxage := by
        rcases (h.agree.lsas b k (hb m m' h.fact)).lists hk with hag | hlong'
        · exact (hag 0 0).symm
        · omega
      have hagea : ((m'.refresh b).lsa a).ageAt ((m'.refresh b).clock 0) = maxage ↔
          ((m.refresh b).lsa a).ageAt ((m.refresh b).clock 0) = maxage := by
        rcases (h1.agree.lsas a k (ha _ _ h1.fact)).lists hk with hag | hlong'
        · exact (hag 0 0).symm
        · rw [hl1, ← hlen] at hlong'
          omega
      have hb' : ((m'.lsa b).ageAt (m'.clock 0) == maxage) = ((m.lsa b).ageAt (m.clock 0) == maxage) :=
        Bool.eq_iff_iff.mpr (by simpa using hageb)
      have ha' : (((m'.refresh b).lsa a).ageAt ((m'.refresh b).clock 0) == maxage) =
          (((m.refresh b).lsa a).ageAt ((m.refresh b).clock 0) == maxage) :=
        Bool.eq_iff_iff.mpr (by simpa using hagea)
      rw [hb', ha']
    · simp [hlong]
  · rw [beq_eq_false_iff_ne.mpr hlen]
    simp

theorem hookReplace_run (hdb : db.isList = true) (b a : Addr) (p : State ρ) (m : Mem) : ∃ n, Refreshes m n ∧
    hookReplace db b a p m = ((), if clash m b a then { p with fault := true } else p, n) := by
  obtain ⟨changed, hc⟩ := lsaIsChanged_run b a p m
  have hstep : (hookReplace db b a : M ρ Unit) p m =
      when (changed = true) (hookChange db b a) (if clash m b a then { p with fault := true } else p)
        ((m.refresh b).refresh a) := by
    show when (_ = true) (hookChange db b a) (lsaIsChanged b a p m).2.1 (lsaIsChanged b a p m).2.2 = _
    rw [hc]
  rw [hstep]
  cases changed with
  | false => exact ⟨_, .step a (.step b .refl), rfl⟩
  | true =>
      obtain ⟨n, hn, hrun⟩ := hookChange_run hdb b a
        (if clash m b a then { p with fault := true } else p) ((m.refresh b).refresh a)
      exact ⟨n, .trans (.step a (.step b .refl)) hn, hrun⟩

theorem hookInsert_list (hdb : db.isList = true) (a : Addr) : (hookInsert db a : M ρ Unit) = headerPrint a := by
  funext p m
  simp only [hookInsert, hookRemove_list hdb, hookAdd_list hdb, ite_self]
  rfl

theorem blind_hookReplace_list [Persistent Φ] (hdb : db.isList = true) (hb : Has Φ b k) (ha : Has Φ a k)
    (hk : C.lists k) : Blind (Rel C Φ) (hookReplace db b a : M ρ Unit) := by
  have hboth : ∀ (p : State ρ) (m m' : Mem), Rel C Φ m m' → ∃ n n', Rel C Φ n n' ∧
      hookReplace db b a p m = ((), if clash m b a then { p with fault := true } else p, n) ∧
      hookReplace db b a p m' = ((), if clash m b a then { p with fault := true } else p, n') := by
    intro p m m' hR
    obtain ⟨n, hn, hm⟩ := hookReplace_run hdb b a p m
    obtain ⟨n', hn', hm'⟩ := hookReplace_run hdb b a p m'
    rw [hR.clash_eq hb ha hk] at hm'
    exact ⟨n, n', hR.refreshes hn hn', hm, hm'⟩
  refine fun p => ⟨fun _ _ _ => Subsingleton.elim _ _, fun m m' hR => ?_, fun m m' hR => ?_, fun m m' hR => ?_⟩
  · obtain ⟨n, n', -, hm, hm'⟩ := hboth p m m' hR
    rw [hm, hm']
  · obtain ⟨n, n', hn, hm, hm'⟩ := hboth p m m' hR
    rw [hm, hm']
    exact hn
  · obtain ⟨n, n', -, hm, -⟩ := hboth p m m' hR
    rw [hm]
    dsimp only
    split
    · rfl
    · rfl

theorem blind_lsdbAdd_list [Persistent Φ] (hdb : db.isList = true) (ha : Has Φ a k) (hk : C.lists k) :
    Blind (Rel C Φ) (lsdbAdd a db : M ρ Unit) := by
  refine blind_lsdbAdd_of_hooks db ha (fun old => blind_hookReplace_list hdb has_and_at ha.left hk) ?_
  rw [hookInsert_list hdb]
  exact blind_headerPrint a

end Lists

section Flooding

variable [Persistent Φ]

theorem blind_examineRequest (on : NbrRef) (ha : Has Φ a k) (hs : Shows C Φ a g) (hg : C.compares k g) :
    Blind (Rel C Φ) (examineRequest a on : M ρ Bool) := by
  refine blind_info_bind ha fun l hl => ?_
  rw [hl]
  refine blind_lookup_bind (.pure _) fun req => ?_
  have hcomp : Blind (Rel C (Φ.and (.at req k))) (lsaCompare a req : M ρ Int) :=
    blind_lsaCompare hs.left has_and_at hg
  refine .bind hcomp fun older => .ite (fun _ => .pure _) fun _ => ?_
  refine .bind hcomp fun same => .ite (fun _ => .bind (blind_lsdbRemove _ _) fun _ => .pure _) fun _ => ?_
  exact .bind hcomp fun newer => .bind (.when fun _ => blind_lsdbRemove _ _) fun _ => .pure _

variable [RouteCalc ρ]

theorem blind_floodNeighbor (sender : Option NbrRef) (on : NbrRef) (ha : Has Φ a k) (hs : Shows C Φ a g)
    (hk : C.tests k) (hg : C.compares k g) : Blind (Rel C Φ) (floodNeighbor sender a on : M ρ Bool) := by
  refine .bind (blind_theNeighbor on) fun n => .ite (fun _ => .pure _) fun _ => ?_
  refine .bind (.ite (fun _ => blind_examineRequest on ha hs hg) fun _ => .pure _) fun goOn => ?_
  refine .ite (fun _ => .pure _) fun _ => .bind (blind_incrementRetransCount a) fun _ => ?_
  refine blind_copy_bind ha fun copy => .bind (blind_lsdbAdd _ has_and_at hk) fun _ => ?_
  refine .bind (.when fun _ => ?_) fun _ => .pure _
  exact .bind (blind_threadAddTimer _) fun _ => blind_modifyNeighbor _ _

theorem blind_floodNeighbors (sender : Option NbrRef) (ons : List NbrRef) (retransAdded : Int) (ha : Has Φ a k)
    (hs : Shows C Φ a g) (hk : C.tests k) (hg : C.compares k g) :
    Blind (Rel C Φ) (floodNeighbors sender a ons retransAdded : M ρ Int) := by
  induction ons generalizing retransAdded with
  | nil => exact .pure _
  | cons on ons ih => exact .bind (blind_floodNeighbor sender on ha hs hk hg) fun _ => ih _

theorem blind_floodInterface (sender : Option NbrRef) (oi : Nat) (ha : Has Φ a k) (hs : Shows C Φ a g)
    (hk : C.tests k) (hg : C.compares k g) : Blind (Rel C Φ) (floodInterface sender a oi : M ρ Unit) := by
  refine .bind (blind_theInterface oi) fun i => .bind .observe fun s => ?_
  refine .bind (blind_floodNeighbors sender _ _ ha hs hk hg) fun retransAdded => ?_
  refine .ite (fun _ => .pure _) fun _ => .ite (fun _ => .pure _) fun _ => .ite (fun _ => .pure _) fun _ => ?_
  refine blind_copy_bind ha fun copy => .bind (blind_lsdbAdd _ has_and_at hk) fun _ => .when fun _ => ?_
  exact .bind (blind_threadAddEvent _) fun _ => blind_modifyInterface _ _

theorem blind_floodArea (sender : Option NbrRef) (oa : Nat) (ha : Has Φ a k) (hs : Shows C Φ a g)
    (hk : C.tests k) (hg : C.compares k g) : Blind (Rel C Φ) (floodArea sender a oa : M ρ Unit) :=
  .bind (blind_info a) fun _ => .bind (blind_theArea oa) fun _ => .forM fun oi _ =>
    .ite (fun _ => .pure _) fun _ => blind_floodInterface sender oi ha hs hk hg

theorem blind_flood (sender : Option NbrRef) (ha : Has Φ a k) (hs : Shows C Φ a g) (hk : C.tests k)
    (hg : C.compares k g) : Blind (Rel C Φ) (flood sender a : M ρ Unit) :=
  .bind (blind_info a) fun _ => .bind .observe fun _ => .forM fun oa _ => .bind (blind_theArea oa) fun _ =>
    .ite (fun _ => .pure _) fun _ => .ite (fun _ => .pure _) fun _ => blind_floodArea sender oa ha hs hk hg

theorem blind_addTo (db : Option Lsdb) (ha : Has Φ a k) (hk : C.tests k) :
    Blind (Rel C Φ) (addTo db a : M ρ Unit) := by
  cases db with
  | none => exact blind_fail
  | some db => exact blind_lsdbAdd db ha hk

theorem blind_installLsa (ha : Has Φ a k) (hk : C.tests k) :
    Blind (Rel C Φ) (installLsa a : M ρ Unit) :=
  .bind (blind_info a) fun _ => .bind (blind_stampInstalled a) fun _ => blind_addTo _ ha hk

theorem blind_lsaOriginate (ha : Has Φ a k) (hs : Shows C Φ a g) (hk : C.tests k) (hg : C.compares k g) :
    Blind (Rel C Φ) (lsaOriginate a : M ρ Unit) := by
  refine blind_info_bind ha fun l hl => ?_
  rw [hl]
  have hrest : ∀ {Ψ : Fact} [Persistent Ψ], Has Ψ a k → Shows C Ψ a g → Blind (Rel C Ψ) (do
      let lsdbSelf ← getScopedLsdbSelf l
      let copy ← lsaCopy a
      addTo lsdbSelf copy
      headerPrint a
      flood none a
      installLsa a : M ρ Unit) := by
    intro Ψ _ ha hs
    refine .bind (blind_getScopedLsdbSelf l) fun lsdbSelf => blind_copy_bind ha fun copy => ?_
    refine .bind (blind_addTo lsdbSelf has_and_at hk) fun _ => .bind (blind_headerPrint a) fun _ => ?_
    exact .bind (blind_flood none ha.left hs.left hk hg) fun _ => blind_installLsa ha.left hk
  refine blind_lookup_bind (.bind (.pure true) fun _ => ?_) fun old => ?_
  · exact .ite (fun _ => hrest ha hs) fun _ => .pure _
  · refine .bind (blind_lsaIsDiffer ha.left has_and_at hk) fun _ => ?_
    exact .ite (fun _ => hrest ha.left hs.left) fun _ => .pure _

end Flooding

section Reception

theorem blind_receiveLsdb {R : Mem → Mem → Prop} (sender : NbrRef) (type : UInt16) :
    Blind R (receiveLsdb sender type : M ρ (Option Lsdb)) := by
  refine .bind (blind_theInterface sender.oi) fun i => ?_
  cases lsaScope type with
  | _ => exact .pure _

variable [Persistent Φ]

theorem blind_isMaxageLsaDrop (ha : Has Φ a k) (hk : C.tests k) : Blind (Rel C Φ) (isMaxageLsaDrop a : M ρ Bool) :=
  .bind (blind_isMaxage ha hk) fun _ => .ite (fun _ => .bind (blind_info a) fun _ =>
    .bind (blind_lsdbLookup _ _) fun _ => .bind .observe fun _ => .pure _) fun _ => .pure _

variable [RouteCalc ρ]

theorem blind_acknowledgeDelayed (oi : Nat) (ha : Has Φ a k) (hk : C.tests k) :
    Blind (Rel C Φ) (acknowledgeDelayed a oi : M ρ Unit) := by
  refine blind_copy_bind ha fun copy => .bind (blind_lsdbAdd _ has_and_at hk) fun _ => ?_
  refine .bind (blind_theInterface oi) fun i => .when fun _ => ?_
  exact .bind (blind_threadAddTimer _) fun _ => blind_modifyInterface _ _

theorem blind_acknowledgeDirect (sender : NbrRef) (ha : Has Φ a k) (hk : C.tests k) :
    Blind (Rel C Φ) (acknowledgeDirect a sender : M ρ Unit) := by
  refine blind_copy_bind ha fun copy => .bind (blind_lsdbAdd _ has_and_at hk) fun _ => ?_
  refine .bind (blind_theNeighbor sender) fun n => .when fun _ => ?_
  exact .bind (blind_threadAddEvent _) fun _ => blind_modifyNeighbor _ _

theorem blind_acknowledgeLsaBdrouter (ismoreRecent : Int) (sender : NbrRef) (ha : Has Φ a k) (hk : C.tests k) :
    Blind (Rel C Φ) (acknowledgeLsaBdrouter a ismoreRecent sender : M ρ Unit) := by
  refine .bind (blind_info a) fun l => .bind (blind_theInterface sender.oi) fun i => ?_
  refine .ite (fun _ => .pure _) fun _ => .ite (fun _ => ?_) fun _ => .ite (fun _ => ?_) fun _ => ?_
  · exact .ite (fun _ => blind_acknowledgeDelayed _ ha hk) fun _ => .pure _
  · exact .ite (fun _ => blind_acknowledgeDelayed _ ha hk) fun _ => .pure _
  · exact .ite (fun _ => blind_acknowledgeDirect sender ha hk) fun _ => .pure _

theorem blind_acknowledgeLsaAllother (ismoreRecent : Int) (sender : NbrRef) (ha : Has Φ a k) (hk : C.tests k) :
    Blind (Rel C Φ) (acknowledgeLsaAllother a ismoreRecent sender : M ρ Unit) := by
  refine .bind (blind_info a) fun l => .ite (fun _ => .pure _) fun _ => ?_
  refine .ite (fun _ => blind_acknowledgeDelayed _ ha hk) fun _ => .ite (fun _ => .pure _) fun _ => ?_
  exact .ite (fun _ => blind_acknowledgeDirect sender ha hk) fun _ => .pure _

theorem blind_acknowledgeLsa (ismoreRecent : Int) (sender : NbrRef) (ha : Has Φ a k) (hk : C.tests k) :
    Blind (Rel C Φ) (acknowledgeLsa a ismoreRecent sender : M ρ Unit) :=
  .bind (blind_theInterface sender.oi) fun _ =>
    .ite (fun _ => blind_acknowledgeLsaBdrouter ismoreRecent sender ha hk) fun _ =>
      blind_acknowledgeLsaAllother ismoreRecent sender ha hk

theorem blind_receiveNewer (sender : NbrRef) {old : Option Addr} (ha : Has Φ a k) (hs : Shows C Φ a g)
    (ho : ∀ b, old = some b → Has Φ b k) (hk : C.tests k) (hg : C.compares k g) (harr : C.arrives k) :
    Blind (Rel C Φ) (receiveNewer sender a old : M ρ Unit) := by
  refine .bind (blind_arrivedEarly ho harr) fun early => .ite (fun _ => .pure _) fun _ => ?_
  refine .bind (blind_info a) fun l => .bind .observe fun s => ?_
  refine .bind (.when fun _ => blind_flood (some sender) ha hs hk hg) fun _ => ?_
  exact .bind (blind_installLsa ha hk) fun _ => blind_acknowledgeLsa (-1) sender ha hk

omit [RouteCalc ρ] in
theorem blind_impliedAck (sender : NbrRef) (a : Addr) (rem : Option Addr) :
    Blind (Rel C Φ) (impliedAck sender a rem : M ρ Unit) := by
  cases rem with
  | none => exact .pure _
  | some rem =>
      exact .bind (blind_modifyInfo a fun _ => rfl) fun _ => .bind (blind_decrementRetransCount rem) fun _ =>
        blind_lsdbRemove rem _

theorem blind_receiveOlder (sender : NbrRef) (ismoreRecent : Int) (ha : Has Φ a k) (hb : Has Φ b k)
    (hk : C.tests k) : Blind (Rel C Φ) (receiveOlder sender a b ismoreRecent : M ρ Unit) := by
  refine .bind (blind_info a) fun l => .bind (blind_lsdbLookup _ _) fun req => ?_
  refine .ite (fun _ => blind_threadAddEvent _) fun _ => .ite (fun _ => ?_) fun _ => ?_
  · refine .bind (blind_lsdbLookup _ _) fun rem => .bind (blind_impliedAck sender a rem) fun _ => ?_
    exact blind_acknowledgeLsa ismoreRecent sender ha hk
  · refine .bind (blind_isMaxage hb hk) fun gone => .bind (blind_info b) fun o => .ite (fun _ => .pure _) fun _ => ?_
    refine blind_copy_bind hb fun copy => .bind (blind_lsdbAdd _ has_and_at hk) fun _ => ?_
    refine .bind (blind_theNeighbor sender) fun n => .when fun _ => ?_
    exact .bind (blind_threadAddEvent _) fun _ => blind_modifyNeighbor _ _

theorem blind_receiveLsa (sender : NbrRef) (hostnum : UInt32) (raw : RawLsa) (hk : C.tests raw.header.key)
    (hg : C.compares raw.header.key raw.age) (harr : C.arrives raw.header.key) :
    Blind (Rel C Φ) (receiveLsa sender hostnum raw : M ρ Unit) := by
  refine blind_born_bind (LsaInfo.ofHeader raw.header raw.body false) hg fun new => ?_
  have hnew : Has (Φ.and ((Fact.at new raw.header.key).and (.shows C new raw.age))) new raw.header.key :=
    fun _ _ hΦ => hΦ.2.1
  have hshow : Shows C (Φ.and ((Fact.at new raw.header.key).and (.shows C new raw.age))) new raw.age :=
    fun _ _ hΦ => hΦ.2.2
  refine .bind (blind_modifyInfo new fun _ => rfl) fun _ => .ite (fun _ => .pure _) fun _ => ?_
  refine .bind (blind_receiveLsdb sender _) fun lsdb => .ite (fun _ => .pure _) fun _ => ?_
  refine .bind (blind_modifyInfo new fun _ => rfl) fun _ => ?_
  refine .bind (blind_isMaxageLsaDrop hnew hk) fun drop => .ite (fun _ => .pure _) fun _ => ?_
  refine blind_lookup_bind (blind_receiveNewer sender hnew hshow nofun hk hg harr) fun old => ?_
  refine .bind (blind_lsaCompare hshow.left has_and_at hg) fun ismoreRecent => .bind (blind_info old) fun o => ?_
  refine .bind (.when fun _ => blind_modifyInfo new fun _ => rfl) fun _ => .ite (fun _ => ?_) fun _ => ?_
  · refine blind_receiveNewer sender hnew.left hshow.left (fun b hb => ?_) hk hg harr
    rw [← Option.some.inj hb]
    exact has_and_at
  · exact blind_receiveOlder sender ismoreRecent hnew.left has_and_at hk

end Reception

end Harry.Sibling
