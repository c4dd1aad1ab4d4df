import Harry.SiblingRequests

/-! Which of two instances of an LSA is the more recent one. `ospf6_lsa_compare` is taken at one time in both
argument orders, and it is applied to an LSA that the sibling is about to originate and to the database copy whose
sequence number `ospf6_new_ls_seqnum` has gone by. -/

namespace Harry.Sibling

open Harry.Base Harry.Rfp Prog

variable {ρ : Type}

/-- Only one of two ages is `MaxAge`. -/
def MaxageSeparates (a b : UInt16) : Prop := ¬ (a = maxage ↔ b = maxage)

/-- Two ages differ by more than `MaxAgeDiff`. -/
def MaxAgeDiffSeparates (a b : UInt16) : Prop := maxAgeDiff < a.toNat - b.toNat ∨ maxAgeDiff < b.toNat - a.toNat

/-- `ospf6_lsa_compare` changes its sign with the order of its arguments, and gives zero only for instances that
nothing tells apart. -/
structure Consistent (s : State ρ) (m : Mem) (a b : Addr) (now : Timeval) : Prop where
  antisymm : ((lsaCompare a b : M ρ Int) s m).1 = -((lsaCompare b a : M ρ Int) s m).1
  same : ((lsaCompare a b : M ρ Int) s m).1 = 0 →
    (m.lsa a).header.seqnum = (m.lsa b).header.seqnum ∧ (m.lsa a).header.checksum = (m.lsa b).header.checksum ∧
    ¬ MaxageSeparates ((m.lsa a).ageAt now) ((m.lsa b).ageAt now) ∧
    ¬ MaxAgeDiffSeparates ((m.lsa a).ageAt now) ((m.lsa b).ageAt now)

section Compare

variable {s : State ρ} {m : Mem} {a b : Addr} {now : Timeval}

/-- An age that has been brought up to date stays as it is while the clock stands still. -/
theorem ageAt_ageAt (l : Lsa) (t : Timeval) : ({ l with age := l.ageAt t } : Lsa).ageAt t = l.ageAt t := by
  show (if maxage ≤ l.ageAt t then maxage else l.sinceBirth t) = l.ageAt t
  unfold Lsa.ageAt
  split
  · rw [if_pos (UInt16.le_refl maxage)]
  · split
    · next hle => exact UInt16.le_antisymm hle (sinceBirth_le l t)
    · rfl

theorem compareAge_self (x : UInt16) : compareAge x x = 0 := by
  simp [compareAge]

theorem compareAt_self (l : Lsa) (t : Timeval) : compareAt l l t t = 0 := by
  simp [compareAt, compareAge_self]

/-- A comparison of an LSA with itself: the second reading finds the age that the first one has left. -/
theorem lsaCompare_self (a : Addr) (s : State ρ) (hclock : ∀ n, m.clock n = now) :
    ((lsaCompare a a : M ρ Int) s m).1 = 0 := by
  have hrefresh : ((m.refresh a).lsa a).ageAt now = (m.lsa a).ageAt now := by
    show ((m.tick.update a _).lsa a).ageAt now = _
    rw [lsa_update]
    split
    · show ({ m.lsa a with age := (m.lsa a).ageAt (m.clock 0) } : Lsa).ageAt now = _
      rw [hclock 0, ageAt_ageAt]
    · rfl
  have hrun : (lsaCompare a a : M ρ Int) s m =
      (if signed (m.lsa a).header.seqnum < signed (m.lsa a).header.seqnum then pure (-1)
        else if signed (m.lsa a).header.seqnum < signed (m.lsa a).header.seqnum then pure 1
        else if (m.lsa a).header.checksum < (m.lsa a).header.checksum then pure (-1)
        else if (m.lsa a).header.checksum < (m.lsa a).header.checksum then pure 0
        else compareAges a a : M ρ Int)
        ((assert ((m.lsa a).header.key == (m.lsa a).header.key) : M ρ Unit) s m).2.1
        ((assert ((m.lsa a).header.key == (m.lsa a).header.key) : M ρ Unit) s m).2.2 := rfl
  have hages : ((compareAges a a : M ρ Int) s m).1 =
      compareAge ((m.lsa a).ageAt (m.clock 0)) (((m.refresh a).lsa a).ageAt (m.clock 1)) := rfl
  rw [hrun, beq_self_eq_true, if_neg (lt_irrefl _), if_neg (lt_irrefl _), if_neg (UInt16.lt_irrefl _),
    if_neg (UInt16.lt_irrefl _)]
  show ((compareAges a a : M ρ Int) s m).1 = 0
  rw [hages, hclock 0, hclock 1, hrefresh, compareAge_self]

/-- While the clock stands still the comparison goes by the ages of that time. -/
theorem lsaCompare_still (hkey : (m.lsa a).header.key = (m.lsa b).header.key) (hclock : ∀ n, m.clock n = now) :
    ((lsaCompare a b : M ρ Int) s m).1 = compareAt (m.lsa a) (m.lsa b) now now := by
  by_cases hab : a = b
  · subst hab
    rw [lsaCompare_self a s hclock, compareAt_self]
  · rw [lsaCompare_run hkey hab, hclock 0, hclock 1]

theorem compareAge_swap (x y : UInt16) : compareAge x y = -compareAge y x := by
  unfold compareAge
  by_cases hx : x = maxage
  · by_cases hy : y = maxage
    · rw [hx, hy]
      simp
    · simp [hx, hy]
  · by_cases hy : y = maxage
    · simp [hx, hy]
    · simp only [hx, hy, false_and, ne_eq, and_false, if_false, not_false_eq_true]
      simp only [UInt16.lt_iff_toNat_lt]
      split_ifs <;> omega

/-- Ages that `ospf6_lsa_compare` finds alike are not told apart by either rule. -/
theorem not_separates_of_compareAge {x y : UInt16} (h : compareAge x y = 0) :
    ¬ MaxageSeparates x y ∧ ¬ MaxAgeDiffSeparates x y := by
  unfold compareAge at h
  unfold MaxageSeparates MaxAgeDiffSeparates
  simp only [UInt16.lt_iff_toNat_lt] at h
  split_ifs at h with h1 h2 h3 h4
  · exact absurd h (by decide)
  · exact absurd h (by decide)
  · refine ⟨fun hne => ?_, fun hdiff => ?_⟩
    · by_cases hx : x = maxage
      · exact h1 ⟨hx, fun hy => hne (iff_of_true hx hy)⟩
      · exact h2 ⟨hx, by_contra fun hy => hne (iff_of_false hx hy)⟩
    · have hpos : 0 < maxAgeDiff := by decide
      omega

/-- The comparison is what it should be exactly where no two checksums of one sequence number meet. -/
theorem consistent_iff (hkey : (m.lsa a).header.key = (m.lsa b).header.key) (hclock : ∀ n, m.clock n = now) :
    Consistent s m a b now ↔ ((m.lsa a).header.seqnum = (m.lsa b).header.seqnum →
      (m.lsa a).header.checksum = (m.lsa b).header.checksum) := by
  have hab := lsaCompare_still (s := s) hkey hclock
  have hba := lsaCompare_still (s := s) hkey.symm hclock
  constructor
  · rintro ⟨hswap, -⟩ hseq
    rw [hab, hba] at hswap
    simp only [compareAt, hseq, lt_self_iff_false, if_false, UInt16.lt_iff_toNat_lt] at hswap
    -- of two checksums the smaller one counts as the same
    rcases lt_trichotomy (m.lsa a).header.checksum.toNat (m.lsa b).header.checksum.toNat with hlt | heq | hgt
    · rw [if_neg hlt.asymm, if_pos hlt, if_pos hlt] at hswap
      exact absurd hswap (by decide)
    · exact UInt16.toNat_inj.mp heq
    · rw [if_pos hgt, if_neg hgt.asymm, if_pos hgt] at hswap
      exact absurd hswap (by decide)
  · intro hsum
    refine ⟨?_, fun hzero => ?_⟩
    · rw [hab, hba]
      unfold compareAt
      rcases lt_trichotomy (signed (m.lsa a).header.seqnum) (signed (m.lsa b).header.seqnum) with hlt | heq | hgt
      · rw [if_neg hlt.asymm, if_pos hlt, if_pos hlt, neg_neg]
      · rw [hsum (signed_inj heq)]
        simp only [heq, lt_self_iff_false, if_false, UInt16.lt_irrefl]
        exact compareAge_swap _ _
      · rw [if_pos hgt, if_neg hgt.asymm, if_pos hgt]
    · rw [hab] at hzero
      unfold compareAt at hzero
      split_ifs at hzero with h1 h2 h3 h4
      · exact absurd hzero (by decide)
      · have hseq : (m.lsa a).header.seqnum = (m.lsa b).header.seqnum := signed_inj (by omega)
        exact absurd (hsum hseq ▸ h4) (UInt16.lt_irrefl _)
      · have hseq : (m.lsa a).header.seqnum = (m.lsa b).header.seqnum := signed_inj (by omega)
        exact ⟨hseq, hsum hseq, not_separates_of_compareAge hzero⟩

/-- Two instances that differ in nothing but their checksums. -/
def checksumsApart : Mem where
  heap := [{ (default : Lsa) with header := ⟨lstypeRouter, 0, 1, initialSequenceNumber, 2, 24⟩ },
    { (default : Lsa) with header := ⟨lstypeRouter, 0, 1, initialSequenceNumber, 1, 24⟩ }]
  clock _ := ⟨0, 0⟩
  moves _ := 0

theorem not_consistent : ¬ ∀ (s : State Unit) (m : Mem) (a b : Addr) (now : Timeval),
    (m.lsa a).header.key = (m.lsa b).header.key → (∀ n, m.clock n = now) → Consistent s m a b now := by
  intro h
  have hswap := (h (withInterface default) checksumsApart 0 1 ⟨0, 0⟩ rfl fun _ => rfl).antisymm
  exact absurd hswap (by decide)

theorem consistent_iff_checksumsApart : (checksumsApart.lsa 0).header.key = (checksumsApart.lsa 1).header.key ∧
    (Consistent (withInterface default) checksumsApart 0 1 ⟨0, 0⟩ ↔
      ((checksumsApart.lsa 0).header.seqnum = (checksumsApart.lsa 1).header.seqnum →
        (checksumsApart.lsa 0).header.checksum = (checksumsApart.lsa 1).header.checksum)) :=
  ⟨rfl, consistent_iff rfl fun _ => rfl⟩

end Compare

/-! ### An LSA of the sibling's own -/

section Own

variable {s : State ρ} {m : Mem} {a b : Addr}

/-- An LSA as the originate functions make it, before it goes to `ospf6_lsa_originate`. -/
def lsaBuild (db : Lsdb) (type : UInt16) (id hostnum : UInt32) (body : List UInt8) : M ρ Addr := do
  let s ← observe
  let seqnum ← newLsSeqnum ⟨type, id, s.routerId⟩ db
  let header : LsaHeader := ⟨type, id, s.routerId, seqnum, 0, UInt16.ofNat (20 + body.length)⟩
  let a ← lsaCreate 0 { header with checksum := lsaChecksum header body } body
  modifyInfo a fun l => { l with hostnum := hostnum, lsdb := some db }
  pure a

theorem lsaOriginateIn_eq [RouteCalc ρ] (db : Lsdb) (type : UInt16) (id hostnum : UInt32) (body : List UInt8) :
    (lsaOriginateIn db type id hostnum body : M ρ Unit) = lsaBuild db type id hostnum body >>= lsaOriginate := rfl

/-- The test by which `ospf6_lsa_originate` suppresses an update. -/
def originateDiffers (a : Addr) : M ρ Bool := do
  let l ← info a
  let old ← lsdbLookup l.header.key l.lsdb
  differsFrom old a

theorem lsaOriginate_of_suppressed [RouteCalc ρ] (h : ((originateDiffers a : M ρ Bool) s m).1 = false) :
    (lsaOriginate a : M ρ Unit) s m = ((), ((originateDiffers a : M ρ Bool) s m).2) := by
  have hrun : (lsaOriginate a : M ρ Unit) s m =
      (if ((originateDiffers a : M ρ Bool) s m).1 then do
        let lsdbSelf ← getScopedLsdbSelf (m.lsa a).toLsaInfo
        let copy ← lsaCopy a
        addTo lsdbSelf copy
        headerPrint a
        flood none a
        installLsa a
      else pure () : M ρ Unit) ((originateDiffers a : M ρ Bool) s m).2.1 ((originateDiffers a : M ρ Bool) s m).2.2 := rfl
  rw [hrun, h, if_neg Bool.false_ne_true]
  rfl

/-- What `ospf6_lsa_is_differ` finds, by the times at which the two ages are read. -/
def Lsa.differs (a b : Lsa) (t u : Timeval) : Bool :=
  (a.ageAt t == maxage) != (b.ageAt u == maxage) || a.header.length != b.header.length || a.body != b.body

theorem lsaIsDiffer_run (hkey : (m.lsa a).header.key = (m.lsa b).header.key) (hne : a ≠ b) :
    (lsaIsDiffer a b : M ρ Bool) s m =
      ((m.lsa a).differs (m.lsa b) (m.clock 0) (m.clock 1), s, (m.refresh a).refresh b) := by
  have hinfos : (infos : M ρ (Addr → LsaInfo)) s m = (fun a => (m.lsa a).toLsaInfo, s, m) := rfl
  have hassert : (assert ((m.lsa a).header.key == (m.lsa b).header.key) : M ρ Unit) s m = ((), s, m) := by
    rw [hkey, beq_self_eq_true]
    rfl
  have hmaxage : ∀ (a : Addr) (m : Mem), (isMaxage a : M ρ Bool) s m =
      ((m.lsa a).ageAt (m.clock 0) == maxage, s, m.refresh a) := fun _ _ => rfl
  have hclock : (m.refresh a).clock 0 = m.clock 1 := rfl
  unfold lsaIsDiffer
  rw [run_bind hinfos, run_bind hassert, run_bind (hmaxage a m), run_bind (hmaxage b _), lsa_refresh_of_ne hne, hclock]
  unfold Lsa.differs
  split_ifs with h1 h2
  · rw [h1]
    rfl
  · rw [h2]
    simp only [Bool.or_true, Bool.true_or]
    rfl
  · rw [Bool.not_eq_true] at h1 h2
    rw [h1, h2]
    rfl

/-- The LSA an originate function makes of a body, with this sequence number. -/
def ownLsa (s : State ρ) (m : Mem) (db : Lsdb) (type : UInt16) (id hostnum : UInt32) (body : List UInt8)
    (seqnum : UInt32) : Lsa :=
  let header : LsaHeader := ⟨type, id, s.routerId, seqnum, 0, UInt16.ofNat (20 + body.length)⟩
  { Lsa.born (.ofHeader { header with checksum := lsaChecksum header body } body false) 0 (m.clock 0) with
    hostnum := hostnum, lsdb := some db }

variable {db : Lsdb} {type : UInt16} {id hostnum : UInt32} {body : List UInt8} {old : Addr}

/-- The LSA stands behind all others on the heap; the database copy is as it was. -/
theorem lsaBuild_run (hold : copyOf (s, m) db ⟨type, id, s.routerId⟩ = some old) : ∃ m',
    (lsaBuild db type id hostnum body : M ρ Addr) s m = (m.heap.length, s, m') ∧
    m'.lsa m.heap.length = ownLsa s m db type id hostnum body ((m.lsa old).header.seqnum + 1) ∧
    (∀ b < m.heap.length, m'.lsa b = m.lsa b) ∧ m'.heap.length = m.heap.length + 1 ∧
    (∀ n, m'.clock n = m.clock (n + 1)) := by
  have hseq : (newLsSeqnum ⟨type, id, s.routerId⟩ db : M ρ UInt32) s m = ((m.lsa old).header.seqnum + 1, s, m) := by
    have hlook : (lsdbLookup ⟨type, id, s.routerId⟩ (some db) : M ρ (Option Addr)) s m = (some old, s, m) := by
      rw [← hold]
      rfl
    unfold newLsSeqnum
    rw [run_bind hlook]
    rfl
  have hrun : (lsaBuild db type id hostnum body : M ρ Addr) s m =
      (newLsSeqnum ⟨type, id, s.routerId⟩ db >>= fun seqnum => do
        let header : LsaHeader := ⟨type, id, s.routerId, seqnum, 0, UInt16.ofNat (20 + body.length)⟩
        let a ← lsaCreate 0 { header with checksum := lsaChecksum header body } body
        modifyInfo a fun l => { l with hostnum := hostnum, lsdb := some db }
        pure a : M ρ Addr) s m := rfl
  rw [hrun, run_bind hseq]
  refine ⟨_, rfl, (push_update_self m.tick _ _).1, (push_update_self m.tick _ _).2, ?_, fun n => rfl⟩
  show ((m.tick.push _).update _ _).heap.length = _
  simp [Mem.update, Mem.push, Mem.tick]

theorem signed_succ {x : UInt32} (h : x ≠ maxSequenceNumber) : signed (x + 1) = signed x + 1 := by
  have hne : x.toNat ≠ 2 ^ 31 - 1 := fun heq => h (UInt32.toNat_inj.mp heq)
  have hlt := x.toNat_lt
  unfold signed
  rw [UInt32.toNat_add, UInt32.toNat_one]
  by_cases hmax : x.toNat = 2 ^ 32 - 1
  · rw [hmax]
    decide
  · rw [Nat.mod_eq_of_lt (by omega)]
    split_ifs <;> omega

theorem signed_succ_max : signed (maxSequenceNumber + 1) < signed maxSequenceNumber := by decide

/-- The new instance goes out in place of the database copy, or it is suppressed. -/
def NewerOrSuppressed (s : State ρ) (m : Mem) (db : Lsdb) (type : UInt16) (id hostnum : UInt32) (body : List UInt8)
    (old : Addr) : Prop :=
  let x := (lsaBuild db type id hostnum body : M ρ Addr) s m
  ((originateDiffers x.1 : M ρ Bool) x.2.1 x.2.2).1 = false ∨ ((lsaCompare x.1 old : M ρ Int) x.2.1 x.2.2).1 < 0

/-- Behind the last sequence number comes the first one, and the new instance is the less recent one. -/
theorem newerOrSuppressed_iff (hx : Valid (s, m)) (hdb : db.Scoped)
    (hold : copyOf (s, m) db ⟨type, id, s.routerId⟩ = some old) :
    NewerOrSuppressed s m db type id hostnum body old ↔ (m.lsa old).header.seqnum ≠ maxSequenceNumber ∨
      (ownLsa s m db type id hostnum body ((m.lsa old).header.seqnum + 1)).differs (m.lsa old) (m.clock 1) (m.clock 2) =
        false := by
  obtain ⟨m', (hrun : lsaBuild db type id hostnum body s m = _), hnew, hsame, hlength, hclock⟩ := lsaBuild_run hold
  have hmem : old ∈ db.get s := List.mem_of_find?_eq_some hold
  have hlt : old < m.heap.length := hx db hdb old hmem
  have hkeyold : (m.lsa old).header.key = ⟨type, id, s.routerId⟩ := header_of_key (by simpa using List.find?_some hold)
  have hkey : (m'.lsa m.heap.length).header.key = (m'.lsa old).header.key := by
    rw [hnew, hsame old hlt, hkeyold]
    rfl
  have hdiffers : ((originateDiffers m.heap.length : M ρ Bool) s m').1 =
      (ownLsa s m db type id hostnum body ((m.lsa old).header.seqnum + 1)).differs (m.lsa old) (m.clock 1)
        (m.clock 2) := by
    have hlook : (lsdbLookup ⟨type, id, s.routerId⟩ (some db) : M ρ (Option Addr)) s m' = (some old, s, m') := by
      show ((db.get s).find? fun a => m'.key a == some _, s, m') = _
      rw [← hold, copyOf]
      refine congrArg (fun o => (o, s, m')) (find?_congr fun a ha => ?_)
      have ha' : a < m.heap.length := hx db hdb a ha
      rw [Mem.key, Mem.key, if_pos (hlength ▸ Nat.lt_succ_of_lt ha'), if_pos ha', hsame a ha']
    have hstart : (originateDiffers m.heap.length : M ρ Bool) s m' =
        (lsdbLookup (m'.lsa m.heap.length).header.key (m'.lsa m.heap.length).lsdb >>= fun old =>
          differsFrom old m.heap.length : M ρ Bool) s m' := rfl
    rw [hstart, hnew]
    show ((lsdbLookup ⟨type, id, s.routerId⟩ (some db) >>= fun old => differsFrom old m.heap.length : M ρ Bool) s m').1 = _
    rw [run_bind hlook]
    show ((lsaIsDiffer m.heap.length old : M ρ Bool) s m').1 = _
    rw [lsaIsDiffer_run hkey hlt.ne', hnew, hsame old hlt, hclock, hclock]
  have hcompare : ((lsaCompare m.heap.length old : M ρ Int) s m').1 < 0 ↔
      (m.lsa old).header.seqnum ≠ maxSequenceNumber := by
    rw [lsaCompare_run hkey hlt.ne', hnew, hsame old hlt]
    show compareAt (ownLsa s m db type id hostnum body ((m.lsa old).header.seqnum + 1)) (m.lsa old) _ _ < 0 ↔ _
    have hseq : (ownLsa s m db type id hostnum body ((m.lsa old).header.seqnum + 1)).header.seqnum =
        (m.lsa old).header.seqnum + 1 := rfl
    unfold compareAt
    rw [hseq]
    by_cases hmax : (m.lsa old).header.seqnum = maxSequenceNumber
    · rw [hmax, if_neg signed_succ_max.asymm, if_pos signed_succ_max]
      simp
    · rw [signed_succ hmax, if_pos (by omega)]
      simp [hmax]
  unfold NewerOrSuppressed
  rw [hrun]
  show ((originateDiffers m.heap.length : M ρ Bool) s m').1 = false ∨
    ((lsaCompare m.heap.length old : M ρ Int) s m').1 < 0 ↔ _
  rw [hdiffers, hcompare]
  exact or_comm

/-- A sibling in whose area the last instance of its Router-LSA is. -/
def lastInstance : State Unit :=
  { withInterface default with areaList := [{ (default : Area) with enabled := true, ifList := [0], lsdb := [0] }] }

/-- That instance, with a body of this length. -/
def lastInstanceMem (length : Nat) : Mem where
  heap := [{ (default : Lsa) with
    header := ⟨lstypeRouter, 0, 1, maxSequenceNumber, 0, UInt16.ofNat (20 + length)⟩
    body := List.replicate length 0, lsdb := some (.area 0) }]
  clock _ := ⟨0, 0⟩
  moves _ := 0

theorem valid_lastInstance (length : Nat) : Valid (lastInstance, lastInstanceMem length) := by
  intro d hd a ha
  cases d with
  | interface oi =>
      cases oi with
      | zero => cases ha
      | succ oi => cases ha
  | area oa =>
      cases oa with
      | zero =>
          obtain rfl : a = 0 := List.mem_singleton.mp ha
          exact Nat.zero_lt_one
      | succ oa => cases ha
  | as => cases ha
  | _ => cases hd

theorem not_newerOrSuppressed : ¬ ∀ (s : State Unit) (m : Mem) (db : Lsdb) (type : UInt16) (id hostnum : UInt32)
    (body : List UInt8) (old : Addr), Valid (s, m) → db.Scoped → copyOf (s, m) db ⟨type, id, s.routerId⟩ = some old →
      NewerOrSuppressed s m db type id hostnum body old := by
  intro h
  have hnew := h lastInstance (lastInstanceMem 4) (.area 0) lstypeRouter 0 0 [1, 0, 0, 0x13] 0 (valid_lastInstance 4)
    trivial (by decide)
  unfold NewerOrSuppressed at hnew
  exact absurd hnew (by decide)

theorem newerOrSuppressed_iff_lastInstance : Valid (lastInstance, lastInstanceMem 4) ∧
    (NewerOrSuppressed lastInstance (lastInstanceMem 4) (.area 0) lstypeRouter 0 0 [0, 0, 0, 0] 0 ↔
      ((lastInstanceMem 4).lsa 0).header.seqnum ≠ maxSequenceNumber ∨
        (ownLsa lastInstance (lastInstanceMem 4) (.area 0) lstypeRouter 0 0 [0, 0, 0, 0]
          (((lastInstanceMem 4).lsa 0).header.seqnum + 1)).differs ((lastInstanceMem 4).lsa 0) ⟨0, 0⟩ ⟨0, 0⟩ = false) :=
  ⟨valid_lastInstance 4, newerOrSuppressed_iff (valid_lastInstance 4) trivial (by decide)⟩

end Own

end Harry.Sibling
