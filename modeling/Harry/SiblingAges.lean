import Harry.SiblingBlind

/-! When two clocks show the same. A step looks at the age of an LSA in four ways: whether it is `MAXAGE`,
whether an LSA that takes the place of another on a list is of another age class, how it compares with an
age that has come in, and whether the LSA has been installed within `MIN_LS_ARRIVAL`. A `Concern` says of
which keys a step looks at what; `Agree` says that the two siblings find the same there. The relation is kept
by everything that a step does to the LSAs, and so are the facts that are known of some of them. -/

namespace Harry.Sibling

open Harry.Base Harry.Rfp Prog

/-- The age that an LSA shows which has come with an age at one time, and is looked at at another. -/
def shownAge (g : UInt16) (born now : Timeval) : UInt16 := (Lsa.born default g born).ageAt now

theorem ageAt_of_le {l : Lsa} (h : maxage ≤ l.age) (t : Timeval) : l.ageAt t = maxage := if_pos h

theorem ageAt_of_not_le {l : Lsa} (h : ¬ maxage ≤ l.age) (t : Timeval) : l.ageAt t = l.sinceBirth t := if_neg h

theorem sinceBirth_le (l : Lsa) (t : Timeval) : l.sinceBirth t ≤ maxage := by
  unfold Lsa.sinceBirth
  dsimp only
  split
  · exact UInt16.le_refl _
  · next h =>
      rw [UInt16.le_iff_toNat_le, UInt16.toNat_ofNat']
      exact Nat.le_trans (Nat.mod_le _ _) (Nat.le_of_not_lt h)

/-- An age that has been brought up to date: `MAXAGE` stays, any other goes on with the time. -/
theorem ageAt_refresh (l : Lsa) (t u : Timeval) :
    { l with age := l.ageAt t }.ageAt u = if l.ageAt t = maxage then maxage else l.ageAt u := by
  by_cases ht : l.ageAt t = maxage
  · rw [if_pos ht]
    exact ageAt_of_le (ht ▸ UInt16.le_refl _) u
  · rw [if_neg ht]
    have hl : ¬ maxage ≤ l.age := fun h => ht (ageAt_of_le h t)
    have hlt : ¬ maxage ≤ l.ageAt t := by
      intro h
      apply ht
      rw [ageAt_of_not_le hl] at h ⊢
      exact UInt16.le_antisymm (sinceBirth_le l t) h
    rw [ageAt_of_not_le (l := { l with age := l.ageAt t }) hlt, ageAt_of_not_le hl u]
    rfl

theorem lsa_update (m : Mem) (a : Addr) (f : Lsa → Lsa) (b : Addr) :
    (m.update a f).lsa b = if a = b ∧ b < m.heap.length then f (m.lsa b) else m.lsa b := by
  by_cases hb : b < m.heap.length
  · simp only [Mem.update, Mem.lsa, List.getD_eq_getElem?_getD, List.getElem?_modify, List.getElem?_eq_getElem hb]
    by_cases h : a = b
    · simp [h, hb]
    · simp [h]
  · simp [Mem.update, Mem.lsa, List.getD_eq_getElem?_getD, hb]

theorem key_update {m : Mem} {a : Addr} {f : Lsa → Lsa} (hf : ∀ l, (f l).header = l.header) :
    (m.update a f).key = m.key := by
  funext b
  have hlen : (m.update a f).heap.length = m.heap.length := List.length_modify _ _ _
  simp only [Mem.key, hlen, lsa_update]
  split
  · split
    · rw [hf]
    · rfl
  · rfl

theorem lsa_push (m : Mem) (l : Lsa) (b : Nat) :
    (m.push l).lsa b = if b = m.heap.length then l else m.lsa b := by
  simp only [Mem.push, Mem.lsa, List.getD_eq_getElem?_getD, List.getElem?_append]
  by_cases hb : b < m.heap.length
  · simp [hb, Nat.ne_of_lt hb]
  · by_cases h : b = m.heap.length
    · simp [h]
    · have hsub : b - m.heap.length ≠ 0 := by omega
      simp [hb, h, hsub]

theorem push_update_self (m : Mem) (l : Lsa) (f : Lsa → Lsa) :
    ((m.push l).update m.heap.length f).lsa m.heap.length = f l ∧
      ∀ a < m.heap.length, ((m.push l).update m.heap.length f).lsa a = m.lsa a := by
  constructor
  · rw [lsa_update, if_pos ⟨rfl, by simp [Mem.push]⟩, lsa_push, if_pos rfl]
  · intro a ha
    rw [lsa_update, if_neg fun h => Nat.ne_of_lt ha h.1.symm, lsa_push, if_neg (Nat.ne_of_lt ha)]

theorem key_push (m : Mem) (l : Lsa) (b : Nat) :
    (m.push l).key b = if b = m.heap.length then some l.header.key else m.key b := by
  have hlen : (m.push l).heap.length = m.heap.length + 1 := by simp [Mem.push]
  simp only [Mem.key, hlen, lsa_push]
  by_cases h : b = m.heap.length
  · simp [h]
  · rw [if_neg h, if_neg h]
    by_cases hb : b < m.heap.length
    · rw [if_pos hb, if_pos (show b < m.heap.length + 1 by omega)]
    · rw [if_neg hb, if_neg (show ¬ b < m.heap.length + 1 by omega)]

theorem lt_of_key {m : Mem} {a : Addr} {k : LsaKey} (h : m.key a = some k) : a < m.heap.length := by
  unfold Mem.key at h
  split at h
  · assumption
  · cases h

theorem header_of_key {m : Mem} {a : Addr} {k : LsaKey} (h : m.key a = some k) : (m.lsa a).header.key = k := by
  rw [Mem.key, if_pos (lt_of_key h)] at h
  exact Option.some.inj h

/-- What a step looks at: of which keys the `MAXAGE` test decides something, of which LSAs are put on lists,
of which one is compared with an LSA that comes with an age, of which the arrival is checked, whether the
clock goes into a sequence number, and what it makes of where its buffer is moved at the one sibling and at the
other. The LSAs that come with an age show one of these ages while the step lasts, at the one sibling and at the
other. -/
structure Concern where
  tests : LsaKey → Prop
  lists : LsaKey → Prop
  compares : LsaKey → UInt16 → Prop
  arrives : LsaKey → Prop
  seqnum : Prop
  moves : (Nat → Int) → (Nat → Int) → Prop
  shows : UInt16 → UInt16 → Prop
  shows' : UInt16 → UInt16 → Prop

/-- The same seen from the other sibling. -/
def Concern.swap (C : Concern) : Concern := { C with shows := C.shows', shows' := C.shows }

/-- The two siblings find the same about one LSA, whenever in the step they look. -/
structure AgreeOn (C : Concern) (k : LsaKey) (l l' : Lsa) (c c' : Nat → Timeval) : Prop where
  tests : C.tests k → ∀ n n', l.ageAt (c n) = maxage ↔ l'.ageAt (c' n') = maxage
  lists : C.lists k → (∀ n n', l.ageAt (c n) = maxage ↔ l'.ageAt (c' n') = maxage) ∨
    20 < l.header.length.toNat ∧ 20 < l'.header.length.toNat
  compares : ∀ g, C.compares k g → ∀ x x', C.shows g x → C.shows' g x' → ∀ n n',
    compareAge x (l.ageAt (c n)) = compareAge x' (l'.ageAt (c' n'))
  arrives : C.arrives k → ∀ n n', l.arrivedAt (c n) = l'.arrivedAt (c' n')

/-- An LSA with nothing in it but the time it was installed. -/
def installedAt (t : Timeval) : Lsa := { (default : Lsa) with installed := t }

/-- The two siblings find the same about the LSAs that are created in the step, and about one that is
installed in it. -/
structure ClocksAgree (C : Concern) (c c' : Nat → Timeval) : Prop where
  shown : ∀ g i j, i ≤ j → C.shows g (shownAge g (c i) (c j))
  shown' : ∀ g i j, i ≤ j → C.shows' g (shownAge g (c' i) (c' j))
  tests : ∀ k g, C.compares k g → ∀ x x', C.shows g x → C.shows' g x' → (x = maxage ↔ x' = maxage)
  compares : ∀ k g h, C.compares k g → C.compares k h → ∀ x x' y y', C.shows g x → C.shows' g x' →
    C.shows h y → C.shows' h y' → compareAge x y = compareAge x' y'
  created : ∀ k, C.arrives k → ∀ n n', (installedAt ⟨0, 0⟩).arrivedAt (c n) = (installedAt ⟨0, 0⟩).arrivedAt (c' n')
  arrives : ∀ k, C.arrives k → ∀ i j i' j', i ≤ j → i' ≤ j' →
    (installedAt (c i)).arrivedAt (c j) = (installedAt (c' i')).arrivedAt (c' j')
  seqnum : C.seqnum → ∀ n n', (c n).sec32 = (c' n').sec32

/-- The two siblings find the same in all that the step is concerned with. -/
structure Agree (C : Concern) (m m' : Mem) : Prop where
  clocks : ClocksAgree C m.clock m'.clock
  lsas : ∀ a k, m.key a = some k → AgreeOn C k (m.lsa a) (m'.lsa a) m.clock m'.clock
  moves : C.moves m.moves m'.moves

section AgreeOn

variable {C : Concern} {k : LsaKey} {l l' : Lsa} {c c' : Nat → Timeval}

theorem ClocksAgree.symm (h : ClocksAgree C c c') : ClocksAgree C.swap c' c where
  shown := h.shown'
  shown' := h.shown
  tests k g hg x x' hx hx' := (h.tests k g hg x' x hx' hx).symm
  compares k g g' hg hg' x x' y y' hx hx' hy hy' := (h.compares k g g' hg hg' x' x y' y hx' hx hy' hy).symm
  created k hk n n' := (h.created k hk n' n).symm
  arrives k hk i j i' j' hi hi' := (h.arrives k hk i' j' i j hi' hi).symm
  seqnum hs n n' := (h.seqnum hs n' n).symm

theorem AgreeOn.symm (h : AgreeOn C k l l' c c') : AgreeOn C.swap k l' l c' c where
  tests hk n n' := (h.tests hk n' n).symm
  lists hk := (h.lists hk).imp (fun h n n' => (h n' n).symm) And.symm
  compares g hg x x' hx hx' n n' := (h.compares g hg x' x hx' hx n' n).symm
  arrives hk n n' := (h.arrives hk n' n).symm

theorem ClocksAgree.tail (h : ClocksAgree C c c') : ClocksAgree C (fun n => c (n + 1)) c' where
  shown g i j hij := h.shown g (i + 1) (j + 1) (Nat.succ_le_succ hij)
  shown' := h.shown'
  tests := h.tests
  compares := h.compares
  created k hk n n' := h.created k hk (n + 1) n'
  arrives k hk i j i' j' hij hij' := h.arrives k hk (i + 1) (j + 1) i' j' (Nat.succ_le_succ hij) hij'
  seqnum hs n n' := h.seqnum hs (n + 1) n'

theorem AgreeOn.tail (h : AgreeOn C k l l' c c') : AgreeOn C k l l' (fun n => c (n + 1)) c' where
  tests hk n n' := h.tests hk (n + 1) n'
  lists hk := (h.lists hk).imp_left fun h n n' => h (n + 1) n'
  compares g hg x x' hx hx' n n' := h.compares g hg x x' hx hx' (n + 1) n'
  arrives hk n n' := h.arrives hk (n + 1) n'

/-- An age that has been brought up to date is one that was shown at a reading. -/
theorem ageAt_refresh_of {S : UInt16 → Prop} (h : ∀ n, S (l.ageAt (c n))) (n : Nat) :
    S ({ l with age := l.ageAt (c 0) }.ageAt (c n)) := by
  rw [ageAt_refresh]
  split
  · next h0 => exact h0 ▸ h 0
  · exact h n

theorem AgreeOn.refresh (h : AgreeOn C k l l' c c') : AgreeOn C k { l with age := l.ageAt (c 0) } l' c c' where
  tests hk n n' := ageAt_refresh_of (S := fun x => x = maxage ↔ l'.ageAt (c' n') = maxage)
    (fun n => h.tests hk n n') n
  lists hk := (h.lists hk).imp_left fun h n n' =>
    ageAt_refresh_of (S := fun x => x = maxage ↔ l'.ageAt (c' n') = maxage) (fun n => h n n') n
  compares g hg x x' hx hx' n n' := ageAt_refresh_of (S := fun y => compareAge x y = compareAge x' (l'.ageAt (c' n')))
    (fun n => h.compares g hg x x' hx hx' n n') n
  arrives hk n n' := h.arrives hk n n'

/-- Two new LSAs that came with the same age agree. -/
theorem AgreeOn.of_shows {g : UInt16} (hc : ClocksAgree C c c') (hg : C.compares k g)
    (hl : ∀ n, C.shows g (l.ageAt (c n))) (hl' : ∀ n, C.shows' g (l'.ageAt (c' n)))
    (hi : l.installed = ⟨0, 0⟩) (hi' : l'.installed = ⟨0, 0⟩) : AgreeOn C k l l' c c' where
  tests _ n n' := hc.tests k g hg _ _ (hl n) (hl' n')
  lists _ := .inl fun n n' => hc.tests k g hg _ _ (hl n) (hl' n')
  compares h hh x x' hx hx' n n' := hc.compares k h g hh hg x x' _ _ hx hx' (hl n) (hl' n')
  arrives hk n n' := by
    have h := hc.created k hk n n'
    simp only [Lsa.arrivedAt, installedAt] at h
    simp only [Lsa.arrivedAt, hi, hi']
    exact h

/-- An LSA that is installed anew, at readings before those that are still to come. -/
theorem AgreeOn.stamp {t t' : Timeval} (h : AgreeOn C k l l' c c')
    (ht : ∀ k, C.arrives k → ∀ n n', (installedAt t).arrivedAt (c n) = (installedAt t').arrivedAt (c' n')) :
    AgreeOn C k { l with installed := t } { l' with installed := t' } c c' where
  tests hk n n' := h.tests hk n n'
  lists hk := h.lists hk
  compares g hg x x' hx hx' n n' := h.compares g hg x x' hx hx' n n'
  arrives hk n n' := ht k hk n n'

end AgreeOn

/-! ### Facts -/

/-- What is known of the LSAs of the two siblings. -/
abbrev Fact := Mem → Mem → Prop

/-- An address has an LSA of this key. -/
def Fact.at (a : Addr) (k : LsaKey) : Fact := fun m _ => m.key a = some k

/-- The LSA there shows ages of a kind, at the one sibling and at the other. -/
def Fact.fresh (a : Addr) (S S' : UInt16 → Prop) : Fact := fun m m' =>
  ∀ n, S ((m.lsa a).ageAt (m.clock n)) ∧ S' ((m'.lsa a).ageAt (m'.clock n))

def Fact.and (Φ Ψ : Fact) : Fact := fun m m' => Φ m m' ∧ Ψ m m'

/-- Keys stay, and no ages are shown that were not shown before. -/
structure Evolves (m m' n n' : Mem) : Prop where
  key : ∀ a k, m.key a = some k → n.key a = some k
  fresh : ∀ a k S S', m.key a = some k → Fact.fresh a S S' m m' → Fact.fresh a S S' n n'

/-- A fact that is not lost in a step. -/
class Persistent (Φ : Fact) : Prop where
  mono : ∀ {m m' n n'}, Evolves m m' n n' → Φ m m' → Φ n n'

instance : Persistent fun _ _ => True := ⟨fun _ _ => trivial⟩

instance (a : Addr) (k : LsaKey) : Persistent (.at a k) := ⟨fun h ha => h.key a k ha⟩

instance (a : Addr) (k : LsaKey) (S S' : UInt16 → Prop) : Persistent ((Fact.at a k).and (.fresh a S S')) :=
  ⟨fun h ha => ⟨h.key a k ha.1, h.fresh a k S S' ha.1 ha.2⟩⟩

instance (Φ Ψ : Fact) [Persistent Φ] [Persistent Ψ] : Persistent (Φ.and Ψ) :=
  ⟨fun h ha => ⟨Persistent.mono h ha.1, Persistent.mono h ha.2⟩⟩

/-- The relation the two siblings stay in during a step, with what is known. -/
structure Rel (C : Concern) (Φ : Fact) (m m' : Mem) : Prop where
  same : SameInfo m m'
  agree : Agree C m m'
  fact : Φ m m'

instance (C : Concern) (Φ : Fact) : SeesInfo (Rel C Φ) := ⟨Rel.same⟩

variable {C : Concern} {Φ Ψ : Fact} {m m' : Mem}

theorem Rel.mono (h : Rel C Φ m m') (hΨ : Φ m m' → Ψ m m') : Rel C Ψ m m' := ⟨h.same, h.agree, hΨ h.fact⟩

theorem SameInfo.update {a : Addr} {f f' : Lsa → Lsa} (h : SameInfo m m')
    (hf : (f' (m'.lsa a)).toLsaInfo = (f (m.lsa a)).toLsaInfo) : SameInfo (m.update a f) (m'.update a f') where
  length_eq := by simp only [Mem.update, List.length_modify, h.length_eq]
  info_eq b := by
    simp only [lsa_update, h.length_eq]
    split
    · next hab => rw [← hab.1, hf]
    · exact h.info_eq b

theorem SameInfo.push {l l' : Lsa} (h : SameInfo m m') (hl : l'.toLsaInfo = l.toLsaInfo) :
    SameInfo (m.push l) (m'.push l') where
  length_eq := by simp only [Mem.push, List.length_append, List.length_singleton, h.length_eq]
  info_eq b := by
    simp only [lsa_push, h.length_eq]
    split
    · exact hl
    · exact h.info_eq b

theorem SameInfo.tick (h : SameInfo m m') : SameInfo m.tick m' := ⟨h.length_eq, h.info_eq⟩

theorem SameInfo.symm (h : SameInfo m m') : SameInfo m' m := ⟨h.length_eq.symm, fun a => (h.info_eq a).symm⟩

section Rel

variable [Persistent Φ]

theorem Rel.tick (h : Rel C Φ m m') : Rel C Φ m.tick m' where
  same := h.same.tick
  agree := ⟨h.agree.clocks.tail, fun a k ha => (h.agree.lsas a k ha).tail, h.agree.moves⟩
  fact := by
    have hev : Evolves m m' m.tick m' :=
      ⟨fun _ _ ha => ha, fun _ _ _ _ _ hS n => ⟨(hS (n + 1)).1, (hS n).2⟩⟩
    exact Persistent.mono hev h.fact

theorem Rel.tick' (h : Rel C Φ m m') : Rel C Φ m m'.tick where
  same := h.same.symm.tick.symm
  agree := ⟨h.agree.clocks.symm.tail.symm, fun a k ha => (h.agree.lsas a k ha).symm.tail.symm, h.agree.moves⟩
  fact := by
    have hev : Evolves m m' m m'.tick :=
      ⟨fun _ _ ha => ha, fun _ _ _ _ _ hS n => ⟨(hS n).1, (hS (n + 1)).2⟩⟩
    exact Persistent.mono hev h.fact

/-- A change of one LSA that leaves its header and the ages it shows as they are. -/
theorem Rel.update (a : Addr) (f f' : Lsa → Lsa) (h : Rel C Φ m m') (hf : ∀ l, (f l).header = l.header)
    (hinfo : (f' (m'.lsa a)).toLsaInfo = (f (m.lsa a)).toLsaInfo)
    (hag : ∀ k, m.key a = some k → AgreeOn C k (f (m.lsa a)) (f' (m'.lsa a)) m.clock m'.clock)
    (hfr : ∀ S S', Fact.fresh a S S' m m' → ∀ n, S ((f (m.lsa a)).ageAt (m.clock n)) ∧
      S' ((f' (m'.lsa a)).ageAt (m'.clock n))) : Rel C Φ (m.update a f) (m'.update a f') where
  same := h.same.update hinfo
  agree := by
    refine ⟨h.agree.clocks, fun b k hb => ?_, h.agree.moves⟩
    rw [key_update hf] at hb
    simp only [lsa_update, h.same.length_eq]
    split
    · next hab =>
        rw [← hab.1] at hb ⊢
        exact hag k hb
    · exact h.agree.lsas b k hb
  fact := by
    have hev : Evolves m m' (m.update a f) (m'.update a f') := by
      refine ⟨fun b k hb => ?_, fun b k S S' hb hS n => ?_⟩
      · rwa [key_update hf]
      · simp only [lsa_update, h.same.length_eq]
        split
        · next hab =>
            rw [← hab.1] at hS ⊢
            exact hfr S S' hS n
        · exact hS n
    exact Persistent.mono hev h.fact

/-- A new LSA. -/
theorem Rel.push (l l' : Lsa) (h : Rel C Φ m m') (hl : l'.toLsaInfo = l.toLsaInfo)
    (hag : AgreeOn C l.header.key l l' m.clock m'.clock) :
    Rel C (Φ.and (.at m.heap.length l.header.key)) (m.push l) (m'.push l') where
  same := h.same.push hl
  agree := by
    refine ⟨h.agree.clocks, fun b k hb => ?_, h.agree.moves⟩
    simp only [lsa_push, key_push, h.same.length_eq] at hb ⊢
    split at hb
    · next heq =>
        rw [if_pos heq, if_pos heq, ← Option.some.inj hb]
        exact hag
    · next hne =>
        rw [if_neg hne, if_neg hne]
        exact h.agree.lsas b k hb
  fact := by
    have hev : Evolves m m' (m.push l) (m'.push l') := by
      refine ⟨fun b k hb => ?_, fun b k S S' hb hS n => ?_⟩
      · rw [key_push, if_neg (Nat.ne_of_lt (lt_of_key hb))]
        exact hb
      · simp only [lsa_push, h.same.length_eq, if_neg (Nat.ne_of_lt (lt_of_key hb))]
        exact hS n
    refine ⟨Persistent.mono hev h.fact, ?_⟩
    show (m.push l).key m.heap.length = some l.header.key
    rw [key_push, if_pos rfl]

/-- `ospf6_lsa_age_current` at the one sibling. -/
theorem Rel.refresh (h : Rel C Φ m m') (a : Addr) : Rel C Φ (m.refresh a) m' := by
  have hid : m'.update a id = m' := by
    unfold Mem.update
    rw [List.modify_id]
  have hup := h.update a (fun l => { l with age := l.ageAt (m.clock 0) }) id (fun _ => rfl) (h.same.info_eq a)
    (fun k hk => (h.agree.lsas a k hk).refresh) fun S _ hS n =>
      ⟨ageAt_refresh_of (S := S) (fun n => (hS n).1) n, (hS n).2⟩
  rw [hid] at hup
  exact hup.tick

/-- The same at the other one. -/
theorem Rel.refresh' (h : Rel C Φ m m') (a : Addr) : Rel C Φ m (m'.refresh a) := by
  have hid : m.update a id = m := by
    unfold Mem.update
    rw [List.modify_id]
  have hup := h.update a id (fun l => { l with age := l.ageAt (m'.clock 0) }) (fun _ => rfl) (h.same.info_eq a)
    (fun k hk => (h.agree.lsas a k hk).symm.refresh.symm) fun _ S' hS n =>
      ⟨(hS n).1, ageAt_refresh_of (S := S') (fun n => (hS n).2) n⟩
  rw [hid] at hup
  exact hup.tick'

end Rel

end Harry.Sibling
