import Harry.SiblingQuiet
import Harry.SiblingReplica

/-! The link state databases converge: after any number of calls of `ospf6_receive_lsa` the database copy of an LSA is
the most recent instance of those that have been received, whatever the order in which they came. -/

namespace Harry.Sibling

open Harry.Base Harry.Rfp Prog

variable {ρ : Type}

/-- What the instances of an LSA are ordered by. -/
def LsaHeader.rank (h : LsaHeader) : Int ×ₗ Nat :=
  toLex (signed h.seqnum, h.checksum.toNat)

section Compare

variable {a b : Addr}

theorem rank_le_iff {h h' : LsaHeader} : h.rank ≤ h'.rank ↔ signed h.seqnum < signed h'.seqnum ∨
    signed h.seqnum = signed h'.seqnum ∧ h.checksum.toNat ≤ h'.checksum.toNat := by
  simp only [LsaHeader.rank, Prod.Lex.le_iff, ofLex_toLex]

/-- `ospf6_lsa_compare` goes by the rank; where it does not tell two instances apart the ages decide. -/
theorem lsaCompare_rank (a b : Addr) (s : State ρ) (m : Mem) :
    (((lsaCompare a b : M ρ Int) s m).1 < 0 → (m.lsa b).header.rank ≤ (m.lsa a).header.rank) ∧
    (¬ ((lsaCompare a b : M ρ Int) s m).1 < 0 → (m.lsa a).header.rank ≤ (m.lsa b).header.rank) := by
  obtain ⟨t, hassert⟩ : ∃ t, (assert ((m.lsa a).header.key == (m.lsa b).header.key) : M ρ Unit) s m = ((), t, m) := by
    cases (m.lsa a).header.key == (m.lsa b).header.key
    · exact ⟨_, rfl⟩
    · exact ⟨_, rfl⟩
  have ht : (lsaCompare a b : M ρ Int) s m =
      (if signed (m.lsa b).header.seqnum < signed (m.lsa a).header.seqnum then pure (-1)
        else if signed (m.lsa a).header.seqnum < signed (m.lsa b).header.seqnum then pure 1
        else if (m.lsa b).header.checksum < (m.lsa a).header.checksum then pure (-1)
        else if (m.lsa a).header.checksum < (m.lsa b).header.checksum then pure 0
        else compareAges a b : M ρ Int)
        ((assert ((m.lsa a).header.key == (m.lsa b).header.key) : M ρ Unit) s m).2.1
        ((assert ((m.lsa a).header.key == (m.lsa b).header.key) : M ρ Unit) s m).2.2 := rfl
  rw [hassert] at ht
  rw [ht, rank_le_iff, rank_le_iff]
  split_ifs with h1 h2 h3 h4
  · exact ⟨fun _ => .inl h1, fun h => absurd (show (-1 : Int) < 0 by decide) h⟩
  · exact ⟨fun h => absurd (show (1 : Int) < 0 from h) (by decide), fun _ => .inl h2⟩
  · rw [UInt16.lt_iff_toNat_lt] at h3
    exact ⟨fun _ => .inr ⟨by omega, h3.le⟩, fun h => absurd (show (-1 : Int) < 0 by decide) h⟩
  · rw [UInt16.lt_iff_toNat_lt] at h4
    exact ⟨fun h => absurd (show (0 : Int) < 0 from h) (by decide), fun _ => .inr ⟨by omega, h4.le⟩⟩
  · rw [UInt16.lt_iff_toNat_lt] at h3 h4
    exact ⟨fun _ => .inr ⟨by omega, by omega⟩, fun _ => .inr ⟨by omega, by omega⟩⟩

end Compare

section Receive

variable {s : State ρ} {m : Mem} {sender : NbrRef} {hostnum : UInt32} {raw : RawLsa} {d : Lsdb}
  {new old : Addr}

/-- The database that an LSA of a type from a neighbor belongs to. -/
def State.lsdbFor (s : State ρ) (sender : NbrRef) (type : UInt16) : Option Lsdb :=
  match lsaScope type with
  | .linklocal => some (.interface sender.oi)
  | .area => (s.interfaces[sender.oi]?).map fun i => .area i.area
  | .as => some .as
  | .reserved => none

theorem lsdbFor_scoped {type : UInt16} (h : s.lsdbFor sender type = some d) : d.Scoped := by
  unfold State.lsdbFor at h
  split at h
  · exact Option.some.inj h ▸ trivial
  · obtain ⟨i, -, rfl⟩ := Option.map_eq_some_iff.mp h
    exact trivial
  · exact Option.some.inj h ▸ trivial
  · exact absurd h (by simp)

theorem lsdbFor_in {type : UInt16} (h : s.lsdbFor sender type = some d) (hin : sender.oi < s.interfaces.length)
    (harea : ∀ i ∈ s.interfaces, i.area < s.areaList.length) : d.In s := by
  unfold State.lsdbFor at h
  split at h
  · exact Option.some.inj h ▸ hin
  · obtain ⟨i, hi, rfl⟩ := Option.map_eq_some_iff.mp h
    exact harea i (List.mem_of_getElem? hi)
  · exact Option.some.inj h ▸ trivial
  · exact absurd h (by simp)

theorem receiveLsdb_eq {type : UInt16} (hin : sender.oi < s.interfaces.length) :
    (receiveLsdb sender type : M ρ (Option Lsdb)) s m = (s.lsdbFor sender type, s, m) := by
  have hget : s.interfaces[sender.oi]? = some s.interfaces[sender.oi] := List.getElem?_eq_getElem hin
  simp only [receiveLsdb, theInterface, State.lsdbFor, bind, observe, hget]
  cases lsaScope type <;> rfl

/-- The heap with an LSA as `ospf6_receive_lsa` creates it, with the database that it belongs to. -/
def receiveMemFor (m : Mem) (raw : RawLsa) (hostnum : UInt32) (d : Lsdb) : Mem :=
  (receiveMem m raw hostnum).update m.heap.length fun l => { l with lsdb := some d }

theorem receiveMemFor_lsa (m : Mem) (hostnum : UInt32) (raw : RawLsa) (d : Lsdb) :
    (receiveMemFor m raw hostnum d).lsa m.heap.length =
    { Lsa.born (.ofHeader raw.header raw.body false) raw.age (m.clock 0) with hostnum, lsdb := some d } := by
  have hlt : m.heap.length < (receiveMem m raw hostnum).heap.length := by
    rw [length_receiveMem]
    exact Nat.lt_succ_self _
  rw [receiveMemFor, lsa_update, if_pos ⟨rfl, hlt⟩, receiveMem_lsa]

theorem quiet_receiveMem : Quiet (s, m) (s, receiveMem m raw hostnum) := by
  refine ⟨rfl, ?_, fun a ha => ?_, 1, fun _ => rfl⟩
  · simp only [length_receiveMem]
    omega
  · exact congrArg Lsa.core ((push_update_self m.tick _ _).2 a ha)

theorem quiet_receiveMemFor : Quiet (s, m) (s, receiveMemFor m raw hostnum d) := by
  have hquiet : Quiet (s, m) (s, receiveMem m raw hostnum) := quiet_receiveMem
  refine ⟨rfl, ?_, fun a ha => ?_, hquiet.clock⟩
  · simpa only [receiveMemFor, Mem.update, List.length_modify] using hquiet.length
  · simp only [receiveMemFor]
    rw [lsa_update, if_neg fun h => ha.ne h.1.symm]
    exact hquiet.core a ha

variable [RouteCalc ρ]

/-- Step (5) of `ospf6_receive_lsa` installs the LSA, unless it has come too early. -/
theorem receiveNewer_installs (hx : Valid (s, m)) (hnew : new < m.heap.length) (hdb : (m.lsa new).lsdb = some d)
    (hd : d.Scoped) (hin : d.In s) {o : Option Addr} (ho : ∀ a ∈ o, ∀ n, (m.lsa a).arrivedAt (m.clock n) = false) :
    Installs (s, m) d new (receiveNewer sender new o s m).2 := by
  obtain ⟨m₁, hearly, hq₁⟩ : ∃ m₁, (arrivedEarly o : M ρ Bool) s m = (false, s, m₁) ∧ Quiet (s, m) (s, m₁) := by
    cases o with
    | none => exact ⟨m, rfl, Frame.refl _⟩
    | some a =>
        refine ⟨m.tick, ?_, quiet_gettime s m⟩
        show ((m.lsa a).arrivedAt (m.clock 0), s, m.tick) = _
        rw [ho a rfl 0]
  -- what is done before the installation
  obtain ⟨⟨s₂, m₂⟩, hq₂, hrun⟩ : ∃ q, Quiet (s, m₁) q ∧ receiveNewer sender new o s m =
      (installLsa new >>= fun _ => acknowledgeLsa new (-1) sender : M ρ Unit) q.1 q.2 := by
    refine ⟨(Prog.when ((m₁.lsa new).header.advRouter ≠ s.routerId) (flood (some sender) new) s m₁).2,
      Within.when (quiet_flood (some sender) new) s m₁, ?_⟩
    have hstep : receiveNewer sender new o s m = ((fun early => if early = true then pure () else do
        let l ← info new
        let s ← observe
        when (l.header.advRouter ≠ s.routerId) (flood (some sender) new)
        installLsa new
        acknowledgeLsa new (-1) sender : Bool → M ρ Unit) ((arrivedEarly o : M ρ Bool) s m).1)
        ((arrivedEarly o : M ρ Bool) s m).2.1 ((arrivedEarly o : M ρ Bool) s m).2.2 := rfl
    rw [hstep, hearly]
    rfl
  have hq : Quiet (s, m) (s₂, m₂) := Frame.trans hq₁ hq₂
  have hin₂ : d.In s₂ := hq.inside hd hin
  have hnew₂ := hnew.trans_le hq.length
  have hinstall := installLsa_installs (hq.valid hx) hnew₂ ((hq.lsdb hnew).trans hdb) hd hin₂
  rw [hrun]
  exact hq.installs hx hd hnew (hinstall.quiet hd hnew₂ (quiet_acknowledgeLsa new (-1) sender _ _))

/-- The reception of an LSA that becomes the database copy. -/
structure Takes (x : State ρ × Mem) (d : Lsdb) (raw : RawLsa) (new : Addr) (y : State ρ × Mem) : Prop where
  copies : ∀ d' k, d'.Scoped →
    copyOf y d' k = if d' = d ∧ k = raw.header.key then some new else copyOf x d' k
  valid : Valid y
  areas : (y.1.interfaces.map fun i => i.area) = x.1.interfaces.map fun i => i.area
  areaList : y.1.areaList.length = x.1.areaList.length
  core : ∀ a < x.2.heap.length, (y.2.lsa a).core = (x.2.lsa a).core
  header : (y.2.lsa new).header = raw.header
  body : (y.2.lsa new).body = raw.body
  installed : ∃ n, (y.2.lsa new).installed = x.2.clock n

/-- From step (5) on the databases are left alone, where the database copy is as recent, or the LSA is installed. -/
theorem receiveFrom5_spec (sender : NbrRef) (raw : RawLsa) (hx : Valid (s, m)) (hnew : new < m.heap.length)
    (hdb : (m.lsa new).lsdb = some d) (hd : d.Scoped) (hin : d.In s)
    (harrived : ∀ a ∈ copyOf (s, m) d raw.header.key, ∀ n, (m.lsa a).arrivedAt (m.clock n) = false) :
    (Quiet (s, m) (receiveFrom5 sender raw new (some d) s m).2 ∧
      ∃ a, copyOf (s, m) d raw.header.key = some a ∧ (m.lsa new).header.rank ≤ (m.lsa a).header.rank) ∨
    ((∀ a ∈ copyOf (s, m) d raw.header.key, (m.lsa a).header.rank ≤ (m.lsa new).header.rank) ∧
      Installs (s, m) d new (receiveFrom5 sender raw new (some d) s m).2) := by
  have hrun : receiveFrom5 sender raw new (some d) s m =
      ((copyOf (s, m) d raw.header.key).elim (receiveNewer sender new none) fun old => do
        let ismoreRecent ← lsaCompare new old
        let o ← info old
        when (raw.header.seqnum = o.header.seqnum) (modifyInfo new fun l => { l with duplicate := true })
        if ismoreRecent < 0 then receiveNewer sender new (some old)
        else receiveOlder sender new old ismoreRecent : M ρ Unit) s m := by
    have hlookup : (lsdbLookup raw.header.key (some d) : M ρ (Option Addr)) s m =
        (copyOf (s, m) d raw.header.key, s, m) := rfl
    rw [receiveFrom5, run_bind hlookup]
    cases copyOf (s, m) d raw.header.key <;> rfl
  cases hcopy : copyOf (s, m) d raw.header.key with
  | none =>
      refine .inr ⟨by simp, ?_⟩
      rw [hrun, hcopy, Option.elim_none]
      exact receiveNewer_installs hx hnew hdb hd hin (by simp)
  | some old =>
      obtain ⟨hlt, hge⟩ := lsaCompare_rank new old s m
      have hold : old < m.heap.length := hx d hd old (List.mem_of_find?_eq_some hcopy)
      -- the comparison, with the flag of a duplicate
      obtain ⟨⟨s₁, m₁⟩, hq, hrest⟩ : ∃ q, Quiet (s, m) q ∧ receiveFrom5 sender raw new (some d) s m =
          (if ((lsaCompare new old : M ρ Int) s m).1 < 0 then receiveNewer sender new (some old)
            else receiveOlder sender new old ((lsaCompare new old : M ρ Int) s m).1 : M ρ Unit) q.1 q.2 := by
        rw [hrun, hcopy, Option.elim_some]
        refine ⟨((do
            let _ ← lsaCompare new old
            let o ← info old
            when (raw.header.seqnum = o.header.seqnum) (modifyInfo new fun l => { l with duplicate := true }) :
              M ρ Unit) s m).2, ?_, rfl⟩
        refine Within.bind (R := Quiet) (quiet_lsaCompare new old) (fun _ => ?_) s m
        exact .bind (quiet_info old) fun _ => .when (quiet_modifyInfo new fun _ => rfl)
      rw [hrest]
      split_ifs with hv
      · refine .inr ⟨fun a ha => Option.some.inj ha ▸ hlt hv, hq.installs hx hd hnew ?_⟩
        have hin₁ : d.In s₁ := hq.inside hd hin
        refine receiveNewer_installs (hq.valid hx) (hnew.trans_le hq.length) ((hq.lsdb hnew).trans hdb) hd hin₁ ?_
        intro a ha n
        obtain rfl := Option.some.inj ha
        obtain ⟨j, hj⟩ := hq.clock
        rw [hj, Lsa.arrivedAt, hq.installed hold]
        exact harrived old (by rw [hcopy]; rfl) (n + j)
      · exact .inl ⟨Frame.trans hq (quiet_receiveOlder sender new old _ _ _), old, rfl, hge hv⟩

/-- What `ospf6_receive_lsa` does: it leaves the databases alone, where the checksum or the scope is wrong or the
database copy is as recent, or makes the LSA the database copy, which then was not more recent. -/
theorem receiveLsa_spec (hostnum : UInt32) (hx : Valid (s, m)) (hin : sender.oi < s.interfaces.length)
    (harea : ∀ i ∈ s.interfaces, i.area < s.areaList.length)
    (hyoung : shownAge raw.age (m.clock 0) (m.clock 1) ≠ maxage)
    (harrived : ∀ d, s.lsdbFor sender raw.header.type = some d → ∀ a ∈ copyOf (s, m) d raw.header.key,
      ∀ n, (m.lsa a).arrivedAt (m.clock n) = false) :
    (Quiet (s, m) (receiveLsa sender hostnum raw s m).2 ∧
      (lsaChecksum raw.header raw.body ≠ raw.header.checksum ∨ s.lsdbFor sender raw.header.type = none ∨
        ∃ d a, s.lsdbFor sender raw.header.type = some d ∧ copyOf (s, m) d raw.header.key = some a ∧
          raw.header.rank ≤ (m.lsa a).header.rank)) ∨
    (lsaChecksum raw.header raw.body = raw.header.checksum ∧
      ∃ d new, s.lsdbFor sender raw.header.type = some d ∧
        (∀ a ∈ copyOf (s, m) d raw.header.key, (m.lsa a).header.rank ≤ raw.header.rank) ∧
        Takes (s, m) d raw new (receiveLsa sender hostnum raw s m).2) := by
  have hcreated : receiveLsa sender hostnum raw s m =
      (if lsaChecksum raw.header raw.body ≠ raw.header.checksum then pure ()
        else do
          let lsdb ← receiveLsdb sender raw.header.type
          if lsdb.isNone then pure ()
          else do
            modifyInfo m.heap.length fun l => { l with lsdb := lsdb }
            let drop ← isMaxageLsaDrop m.heap.length
            if drop then pure () else receiveFrom5 sender raw m.heap.length lsdb : M ρ Unit)
        s (receiveMem m raw hostnum) := rfl
  by_cases hsum : lsaChecksum raw.header raw.body = raw.header.checksum
  swap
  · rw [hcreated, if_pos hsum]
    exact .inl ⟨quiet_receiveMem, .inl hsum⟩
  rw [if_neg (not_not.mpr hsum)] at hcreated
  cases hdb : s.lsdbFor sender raw.header.type with
  | none =>
      have hrun : receiveLsa sender hostnum raw s m = ((), s, receiveMem m raw hostnum) := by
        rw [hcreated, run_bind (receiveLsdb_eq hin), hdb]
        rfl
      rw [hrun]
      exact .inl ⟨quiet_receiveMem, .inr (.inl rfl)⟩
  | some d =>
      have hd := lsdbFor_scoped hdb
      have hin' := lsdbFor_in hdb hin harea
      -- the LSA is not too old
      have hage : ((receiveMemFor m raw hostnum d).lsa m.heap.length).ageAt (m.clock 1) ≠ maxage := by
        rw [receiveMemFor_lsa]
        exact hyoung
      have hdrop : (isMaxageLsaDrop m.heap.length : M ρ Bool) s (receiveMemFor m raw hostnum d) =
          (false, s, (receiveMemFor m raw hostnum d).refresh m.heap.length) := by
        have hstep : (isMaxageLsaDrop m.heap.length : M ρ Bool) s (receiveMemFor m raw hostnum d) =
            (if (((receiveMemFor m raw hostnum d).lsa m.heap.length).ageAt (m.clock 1) == maxage) = true then do
              let l ← info m.heap.length
              let old ← lsdbLookup l.header.key l.lsdb
              let s ← observe
              pure (old.isNone && s.outside.maxageLsaDrop)
            else pure false : M ρ Bool) s ((receiveMemFor m raw hostnum d).refresh m.heap.length) := rfl
        rw [hstep, if_neg (by simpa using hage)]
        rfl
      have hrun : receiveLsa sender hostnum raw s m = receiveFrom5 sender raw m.heap.length (some d) s
          ((receiveMemFor m raw hostnum d).refresh m.heap.length) := by
        rw [hcreated, run_bind (receiveLsdb_eq hin), hdb]
        show (do
          let drop ← isMaxageLsaDrop m.heap.length
          if drop then pure () else receiveFrom5 sender raw m.heap.length (some d) : M ρ Unit) s
            (receiveMemFor m raw hostnum d) = _
        rw [run_bind hdrop]
        rfl
      have hquiet : Quiet (s, receiveMemFor m raw hostnum d) (s, (receiveMemFor m raw hostnum d).refresh m.heap.length) :=
        quiet_ageCurrent m.heap.length s _
      have hq : Quiet (s, m) (s, (receiveMemFor m raw hostnum d).refresh m.heap.length) :=
        Frame.trans quiet_receiveMemFor hquiet
      have hlt : m.heap.length < (receiveMemFor m raw hostnum d).heap.length := by
        simp only [receiveMemFor, Mem.update, List.length_modify]
        exact length_receiveMem ▸ Nat.lt_succ_self _
      have hlsa := receiveMemFor_lsa m hostnum raw d
      have hlt' := hlt.trans_le hquiet.length
      have hheader : (((receiveMemFor m raw hostnum d).refresh m.heap.length).lsa m.heap.length).header = raw.header := by
        rw [hquiet.header hlt, hlsa]
        rfl
      have hbody : (((receiveMemFor m raw hostnum d).refresh m.heap.length).lsa m.heap.length).body = raw.body := by
        rw [hquiet.body hlt, hlsa]
        rfl
      have hlsdb : (((receiveMemFor m raw hostnum d).refresh m.heap.length).lsa m.heap.length).lsdb = some d := by
        rw [hquiet.lsdb hlt, hlsa]
      have hcopy := hq.copyOf hx hd raw.header.key
      have hrank : ∀ a ∈ copyOf (s, m) d raw.header.key,
          (((receiveMemFor m raw hostnum d).refresh m.heap.length).lsa a).header = (m.lsa a).header := by
        intro a ha
        exact hq.header (hx d hd a (List.mem_of_find?_eq_some ha))
      rw [hrun]
      obtain ⟨hend, a, ha, hle⟩ | ⟨hle, hinst⟩ := receiveFrom5_spec sender raw (hq.valid hx) hlt' hlsdb
          hd hin' (by
            intro a ha n
            rw [hcopy] at ha
            obtain ⟨j, hj⟩ := hq.clock
            rw [hj, Lsa.arrivedAt, hq.installed (hx d hd a (List.mem_of_find?_eq_some ha))]
            exact harrived d hdb a ha (n + j))
      · refine .inl ⟨Frame.trans hq hend, .inr (.inr ⟨d, a, rfl, hcopy ▸ ha, ?_⟩)⟩
        rw [hcopy] at ha
        rw [hheader, hrank a ha] at hle
        exact hle
      · refine .inr ⟨hsum, d, m.heap.length, rfl, fun a ha => ?_, ?_⟩
        · have hle := hle a (hcopy ▸ ha)
          rw [hheader, hrank a ha] at hle
          exact hle
        · have hkey : ((receiveMemFor m raw hostnum d).refresh m.heap.length).key m.heap.length =
              some raw.header.key := by
            rw [Mem.key, if_pos hlt', hheader]
          refine ⟨fun d' k hd' => ?_, hinst.valid, hinst.areas.trans hq.areas, hinst.areaList.trans hq.areaList,
            fun a ha => (hinst.core a (ha.trans_le hq.length) ha.ne).trans (hq.core a ha), hinst.header.trans hheader,
            hinst.body.trans hbody, ?_⟩
          · by_cases hdd : d' = d
            · subst hdd
              rw [hinst.self, hkey, hq.copyOf hx hd]
              simp only [Option.some.injEq, true_and, eq_comm]
            · rw [hinst.others d' k hd' hdd, hq.copyOf hx hd', if_neg fun h => hdd h.1]
          · obtain ⟨n, hn⟩ := hinst.installed
            obtain ⟨j, hj⟩ := hq.clock
            exact ⟨n + j, hn.trans (hj n)⟩

end Receive

/-! ### Many calls -/

/-- A call of `ospf6_receive_lsa`, with the readings of the clock during the call. -/
structure Call where
  clock : Nat → Timeval
  sender : NbrRef
  hostnum : UInt32
  raw : RawLsa

/-- A number of microseconds. -/
def Timeval.usecs (t : Timeval) : Int := t.sec * 1000000 + t.usec

/-- The LSAs of these calls are whole, longer than their header and not of the age `MAXAGE`; they come from interfaces
that are there, those of one key at least `MIN_LS_ARRIVAL` apart, and two instances with the same sequence number and
checksum have the same body. -/
structure Admissible (s : State ρ) (calls : List Call) : Prop where
  sender : ∀ c ∈ calls, c.sender.oi < s.interfaces.length
  whole : ∀ c ∈ calls, 20 < c.raw.header.length.toNat ∧ c.raw.header.length.toNat = 20 + c.raw.body.length
  young : ∀ c ∈ calls, ∀ n, shownAge c.raw.age (c.clock 0) (c.clock n) ≠ maxage
  normal : ∀ c ∈ calls, ∀ n, 0 ≤ (c.clock n).usec ∧ (c.clock n).usec < 1000000
  apart : calls.Pairwise fun c c' => c.raw.header.key = c'.raw.header.key →
    ∀ n n', (c.clock n).usecs + 1000000 * minLsArrival ≤ (c'.clock n').usecs
  bodies : ∀ c ∈ calls, ∀ c' ∈ calls, c.raw.header.key = c'.raw.header.key →
    c.raw.header.seqnum = c'.raw.header.seqnum → c.raw.header.checksum = c'.raw.header.checksum →
    c.raw.body = c'.raw.body

/-- An instance has been received with a correct checksum for a database. -/
def Received (s : State ρ) (calls : List Call) (d : Lsdb) (k : LsaKey) (raw : RawLsa) : Prop :=
  ∃ c ∈ calls, c.raw = raw ∧ lsaChecksum raw.header raw.body = raw.header.checksum ∧
    s.lsdbFor c.sender raw.header.type = some d ∧ raw.header.key = k

/-- What the database copy of an LSA says, its age aside. -/
def contentsOf (x : State ρ × Mem) (d : Lsdb) (k : LsaKey) : Option (LsaHeader × List UInt8) :=
  (copyOf x d k).map fun a => ((x.2.lsa a).header, (x.2.lsa a).body)

/-- The most recent one of some instances, where there are any. -/
def Newest (P : RawLsa → Prop) : Option (LsaHeader × List UInt8) → Prop
  | none => ∀ raw, ¬ P raw
  | some x => ∃ raw, P raw ∧ x = (raw.header, raw.body) ∧ ∀ r, P r → r.header.rank ≤ x.1.rank

section Run

variable {s : State ρ} {calls pre : List Call} {c : Call} {d : Lsdb} {k : LsaKey} {x y : State ρ × Mem}

theorem arrivedAt_eq_false {l : Lsa} {t : Timeval} (hl : 0 ≤ l.installed.usec ∧ l.installed.usec < 1000000)
    (ht : 0 ≤ t.usec ∧ t.usec < 1000000) (h : l.installed.usecs + 1000000 * minLsArrival ≤ t.usecs) :
    l.arrivedAt t = false := by
  simp only [Timeval.usecs, minLsArrival] at h
  rw [Lsa.arrivedAt, decide_eq_false_iff_not, minLsArrival]
  split_ifs <;> omega

theorem lsdbFor_congr {s' : State ρ} (h : (s'.interfaces.map fun i => i.area) = s.interfaces.map fun i => i.area)
    (sender : NbrRef) (type : UInt16) : s'.lsdbFor sender type = s.lsdbFor sender type := by
  have hget := congrArg (fun l => l[sender.oi]?) h
  simp only [List.getElem?_map] at hget
  simp only [State.lsdbFor]
  cases lsaScope type with
  | area =>
      simp only
      have hmap := congrArg (Option.map Lsdb.area) hget
      simpa only [Option.map_map, Function.comp_def] using hmap
  | linklocal => rfl
  | as => rfl
  | reserved => rfl

theorem received_concat {raw : RawLsa} : Received s (pre ++ [c]) d k raw ↔ Received s pre d k raw ∨
    (c.raw = raw ∧ lsaChecksum raw.header raw.body = raw.header.checksum ∧
      s.lsdbFor c.sender raw.header.type = some d ∧ raw.header.key = k) := by
  simp only [Received, List.mem_append, List.mem_singleton]
  constructor
  · rintro ⟨c', hc' | rfl, h⟩
    · exact .inl ⟨c', hc', h⟩
    · exact .inr h
  · rintro (⟨c', hc', h⟩ | h)
    · exact ⟨c', .inl hc', h⟩
    · exact ⟨c, .inr rfl, h⟩

theorem Newest.keep {P P' : RawLsa → Prop} {o : Option (LsaHeader × List UInt8)} (h : Newest P o)
    (hP : ∀ r, P r → P' r) (hP' : ∀ r, P' r → P r ∨ ∃ x, o = some x ∧ r.header.rank ≤ x.1.rank) : Newest P' o := by
  cases o with
  | none =>
      intro raw hraw
      obtain hraw | ⟨x, hx, -⟩ := hP' raw hraw
      · exact h raw hraw
      · exact absurd hx (by simp)
  | some x =>
      obtain ⟨raw, hraw, hx, hmax⟩ := h
      refine ⟨raw, hP raw hraw, hx, fun r hr => ?_⟩
      obtain hr | ⟨x', hx', hle⟩ := hP' r hr
      · exact hmax r hr
      · exact Option.some.inj hx' ▸ hle

theorem Newest.take {P P' : RawLsa → Prop} {o : Option (LsaHeader × List UInt8)} {raw : RawLsa} (h : Newest P o)
    (hraw : P' raw) (hP' : ∀ r, P' r → P r ∨ r = raw) (hle : ∀ x ∈ o, x.1.rank ≤ raw.header.rank) :
    Newest P' (some (raw.header, raw.body)) := by
  refine ⟨raw, hraw, rfl, fun r hr => ?_⟩
  obtain hr | rfl := hP' r hr
  · cases o with
    | none => exact absurd hr (h r)
    | some x =>
        obtain ⟨-, -, -, hmax⟩ := h
        exact (hmax r hr).trans (hle x rfl)
  · exact le_rfl

theorem contentsOf_congr (hcopy : copyOf y d k = copyOf x d k) (hx : Valid x) (hd : d.Scoped)
    (hcore : ∀ a < x.2.heap.length, (y.2.lsa a).core = (x.2.lsa a).core) : contentsOf y d k = contentsOf x d k := by
  rw [contentsOf, contentsOf, hcopy]
  cases hc : copyOf x d k with
  | none => rfl
  | some a =>
      have ha := hcore a (hx d hd a (List.mem_of_find?_eq_some hc))
      simp only [Lsa.core, Prod.mk.injEq] at ha
      rw [Option.map_some, Option.map_some, ha.1, ha.2.1]

/-- The state of a sibling after some calls. -/
structure Converged (s : State ρ) (pre : List Call) (x : State ρ × Mem) : Prop where
  valid : Valid x
  areas : (x.1.interfaces.map fun i => i.area) = s.interfaces.map fun i => i.area
  areaList : x.1.areaList.length = s.areaList.length
  newest : ∀ d, d.Scoped → ∀ k, Newest (Received s pre d k) (contentsOf x d k)
  stamp : ∀ d, d.Scoped → ∀ k, ∀ a ∈ copyOf x d k, ∃ c ∈ pre, c.raw.header.key = k ∧
    ∃ n, (x.2.lsa a).installed = c.clock n

theorem Admissible.of_append {post : List Call} (h : Admissible s (pre ++ post)) : Admissible s pre where
  sender c hc := h.sender c (List.mem_append_left _ hc)
  whole c hc := h.whole c (List.mem_append_left _ hc)
  young c hc := h.young c (List.mem_append_left _ hc)
  normal c hc := h.normal c (List.mem_append_left _ hc)
  apart := (List.pairwise_append.mp h.apart).1
  bodies c hc c' hc' := h.bodies c (List.mem_append_left _ hc) c' (List.mem_append_left _ hc')

theorem signed_inj {a b : UInt32} (h : signed a = signed b) : a = b := by
  have ha := a.toNat_lt
  have hb := b.toNat_lt
  simp only [signed] at h
  rw [← UInt32.toNat_inj]
  split_ifs at h <;> omega

/-- Two instances that the rank does not tell apart are the same. -/
theorem Admissible.same_of_rank (h : Admissible s calls) {c' : Call} (hc : c ∈ calls) (hc' : c' ∈ calls)
    (hkey : c.raw.header.key = c'.raw.header.key) (hrank : c.raw.header.rank = c'.raw.header.rank) :
    c.raw.header = c'.raw.header ∧ c.raw.body = c'.raw.body := by
  simp only [LsaHeader.rank, EmbeddingLike.apply_eq_iff_eq, Prod.mk.injEq] at hrank
  have hseq := signed_inj hrank.1
  have hsum := UInt16.toNat_inj.mp hrank.2
  have hbody := h.bodies c hc c' hc' hkey hseq hsum
  have hlength : c.raw.header.length = c'.raw.header.length := by
    rw [← UInt16.toNat_inj, (h.whole c hc).2, (h.whole c' hc').2, hbody]
  simp only [LsaHeader.key, LsaKey.mk.injEq] at hkey
  refine ⟨?_, hbody⟩
  generalize c.raw.header = u at *
  generalize c'.raw.header = v at *
  cases u
  cases v
  simp only at hkey hseq hsum hlength
  rw [hkey.1, hkey.2.1, hkey.2.2, hseq, hsum, hlength]

/-- What has arrived by a call. -/
def Call.arrival (c : Call) : NbrRef × LsaHeader × List UInt8 :=
  (c.sender, c.raw.header, c.raw.body)

theorem Received.of_arrival {calls' : List Call} (h : ∀ x, x ∈ calls.map Call.arrival → x ∈ calls'.map Call.arrival)
    {raw : RawLsa} (hr : Received s calls d k raw) :
    ∃ raw', Received s calls' d k raw' ∧ raw'.header = raw.header ∧ raw'.body = raw.body := by
  obtain ⟨c, hc, rfl, hsum, hfor, hkey⟩ := hr
  obtain ⟨c', hc', heq⟩ := List.mem_map.mp (h c.arrival (List.mem_map_of_mem hc))
  simp only [Call.arrival, Prod.mk.injEq] at heq
  refine ⟨c'.raw, ⟨c', hc', rfl, ?_, ?_, ?_⟩, heq.2⟩
  · rw [heq.2.1, heq.2.2]
    exact hsum
  · rw [heq.1, heq.2.1]
    exact hfor
  · rw [heq.2.1]
    exact hkey

/-- The most recent ones of the same instances are one. -/
theorem Newest.unique {calls' : List Call} {o o' : Option (LsaHeader × List UInt8)} (ha : Admissible s calls)
    (h : Newest (Received s calls d k) o) (h' : Newest (Received s calls' d k) o')
    (hsame : ∀ x, x ∈ calls.map Call.arrival ↔ x ∈ calls'.map Call.arrival) : o = o' := by
  cases o with
  | none =>
      cases o' with
      | none => rfl
      | some x' =>
          obtain ⟨raw', hraw', -⟩ := h'
          obtain ⟨raw, hraw, -⟩ := hraw'.of_arrival fun x hx => (hsame x).mpr hx
          exact absurd hraw (h raw)
  | some x =>
      obtain ⟨raw, hraw, rfl, hmax⟩ := h
      obtain ⟨copy', hcopy', hheader', hbody'⟩ := hraw.of_arrival fun x hx => (hsame x).mp hx
      cases o' with
      | none => exact absurd hcopy' (h' copy')
      | some x' =>
          obtain ⟨raw', hraw', rfl, hmax'⟩ := h'
          obtain ⟨copy, hcopy, hheader, hbody⟩ := hraw'.of_arrival fun x hx => (hsame x).mpr hx
          have hle := hmax copy hcopy
          have hle' := hmax' copy' hcopy'
          rw [hheader] at hle
          rw [hheader'] at hle'
          obtain ⟨c, hc, rfl, -, -, hkey⟩ := hraw
          obtain ⟨c', hc', rfl, -, -, hkey'⟩ := hcopy
          have heq := ha.same_of_rank hc hc' (hkey.trans hkey'.symm) (by rw [hheader]; exact le_antisymm hle' hle)
          rw [heq.1, heq.2, hheader, hbody]

variable [RouteCalc ρ]

def Call.run (c : Call) (x : State ρ × Mem) : State ρ × Mem :=
  (receiveLsa c.sender c.hostnum c.raw x.1 { x.2 with clock := c.clock }).2

theorem Converged.step (h : Converged s pre x) (hfit : ∀ i ∈ s.interfaces, i.area < s.areaList.length)
    (ha : Admissible s (pre ++ [c])) : Converged s (pre ++ [c]) (c.run x) := by
  have hmem : c ∈ pre ++ [c] := List.mem_append_right _ List.mem_cons_self
  let m : Mem := { x.2 with clock := c.clock }
  have hvalid : Valid (x.1, m) := h.valid
  have hlength : x.1.interfaces.length = s.interfaces.length := by
    have hlen := congrArg List.length h.areas
    simpa only [List.length_map] using hlen
  have hin : c.sender.oi < x.1.interfaces.length := hlength ▸ ha.sender c hmem
  have harea : ∀ i ∈ x.1.interfaces, i.area < x.1.areaList.length := by
    intro i hi
    have hi' : i.area ∈ s.interfaces.map fun i => i.area := h.areas ▸ List.mem_map_of_mem hi
    obtain ⟨j, hj, hji⟩ := List.mem_map.mp hi'
    rw [← hji, h.areaList]
    exact hfit j hj
  have hfor : ∀ type, x.1.lsdbFor c.sender type = s.lsdbFor c.sender type := lsdbFor_congr h.areas c.sender
  -- an LSA of this key has been installed in an earlier call
  have harrived : ∀ d, x.1.lsdbFor c.sender c.raw.header.type = some d → ∀ a ∈ copyOf (x.1, m) d c.raw.header.key,
      ∀ n, (m.lsa a).arrivedAt (m.clock n) = false := by
    intro d hd a hcopy n
    obtain ⟨c', hc', hkey, j, hj⟩ := h.stamp d (lsdbFor_scoped hd) _ a hcopy
    have hstamp : (m.lsa a).installed = c'.clock j := hj
    have hc'mem : c' ∈ pre ++ [c] := List.mem_append_left _ hc'
    refine arrivedAt_eq_false (hstamp ▸ ha.normal c' hc'mem j) (ha.normal c hmem n) ?_
    rw [hstamp]
    exact (List.pairwise_append.mp ha.apart).2.2 c' hc' c List.mem_cons_self hkey j n
  have hrun : (receiveLsa c.sender c.hostnum c.raw x.1 m).2 = c.run x := rfl
  have hspec := receiveLsa_spec c.hostnum hvalid hin harea (ha.young c hmem 1) harrived
  rw [hrun, hfor] at hspec
  obtain ⟨hq, hreason⟩ | ⟨hsum, d, new, hd, hle, ht⟩ := hspec
  · have hcopy : ∀ d, d.Scoped → ∀ k, copyOf (c.run x) d k = copyOf x d k := fun d hd k => hq.copyOf hvalid hd k
    have hcontents : ∀ d, d.Scoped → ∀ k, contentsOf (c.run x) d k = contentsOf x d k := fun d hd k =>
      contentsOf_congr (hcopy d hd k) h.valid hd hq.core
    refine ⟨hq.valid hvalid, hq.areas.trans h.areas, hq.areaList.trans h.areaList, fun d hd k => ?_,
      fun d hd k a hak => ?_⟩
    · rw [hcontents d hd k]
      refine (h.newest d hd k).keep (fun r hr => received_concat.mpr (.inl hr)) fun r hr => ?_
      obtain hr | ⟨rfl, hsum, hfor', rfl⟩ := received_concat.mp hr
      · exact .inl hr
      · obtain hbad | hnone | ⟨d', a, hd', hcopy', hle⟩ := hreason
        · exact absurd hsum hbad
        · rw [hnone] at hfor'
          exact absurd hfor' (by simp)
        · rw [hd', Option.some.injEq] at hfor'
          subst hfor'
          have hcopy' : copyOf x d' c.raw.header.key = some a := hcopy'
          refine .inr ⟨((x.2.lsa a).header, (x.2.lsa a).body), ?_, hle⟩
          rw [contentsOf, hcopy', Option.map_some]
    · rw [hcopy d hd k] at hak
      obtain ⟨c', hc', hkey, n, hn⟩ := h.stamp d hd k a hak
      refine ⟨c', List.mem_append_left _ hc', hkey, n, ?_⟩
      rw [hq.installed (h.valid d hd a (List.mem_of_find?_eq_some hak))]
      exact hn
  · refine ⟨ht.valid, ht.areas.trans h.areas, ht.areaList.trans h.areaList, fun d' hd' k => ?_,
      fun d' hd' k a hak => ?_⟩
    · have hcopy := ht.copies d' k hd'
      by_cases hdk : d' = d ∧ k = c.raw.header.key
      · obtain ⟨rfl, rfl⟩ := hdk
        rw [if_pos ⟨rfl, rfl⟩] at hcopy
        have hnew : contentsOf (c.run x) d' c.raw.header.key = some (c.raw.header, c.raw.body) := by
          rw [contentsOf, hcopy, Option.map_some, ht.header, ht.body]
        rw [hnew]
        refine (h.newest d' hd' c.raw.header.key).take (received_concat.mpr (.inr ⟨rfl, hsum, hd, rfl⟩))
          (fun r hr => ?_) fun z hz => ?_
        · exact (received_concat.mp hr).imp_right fun hr => hr.1.symm
        · rw [contentsOf] at hz
          obtain ⟨a, hacopy, rfl⟩ := Option.map_eq_some_iff.mp hz
          exact hle a hacopy
      · rw [if_neg hdk] at hcopy
        rw [contentsOf_congr hcopy h.valid hd' ht.core]
        refine (h.newest d' hd' k).keep (fun r hr => received_concat.mpr (.inl hr)) fun r hr => ?_
        obtain hr | ⟨rfl, -, hfor', rfl⟩ := received_concat.mp hr
        · exact .inl hr
        · rw [hd, Option.some.injEq] at hfor'
          exact absurd ⟨hfor'.symm, rfl⟩ hdk
    · have hcopy := ht.copies d' k hd'
      rw [hcopy] at hak
      split_ifs at hak with hdk
      · obtain rfl := Option.some.inj hak
        obtain ⟨n, hn⟩ := ht.installed
        exact ⟨c, hmem, hdk.2.symm, n, hn⟩
      · obtain ⟨c', hc', hkey, n, hn⟩ := h.stamp d' hd' k a hak
        refine ⟨c', List.mem_append_left _ hc', hkey, n, ?_⟩
        have hcore := ht.core a (h.valid d' hd' a (List.mem_of_find?_eq_some hak))
        simp only [Lsa.core, Prod.mk.injEq] at hcore
        rw [hcore.2.2.2]
        exact hn

def runCalls (calls : List Call) (x : State ρ × Mem) : State ρ × Mem :=
  calls.foldl (fun x c => c.run x) x

/-- After any number of calls on empty databases each database copy is the most recent instance. -/
theorem converged_run {m : Mem} (hfit : ∀ i ∈ s.interfaces, i.area < s.areaList.length)
    (hempty : ∀ d : Lsdb, d.Scoped → d.get s = []) (ha : Admissible s calls) :
    Converged s calls (runCalls calls (s, m)) := by
  induction calls using List.reverseRecOn with
  | nil =>
      have hcopy : ∀ d : Lsdb, d.Scoped → ∀ k, copyOf (s, m) d k = none := by
        intro d hd k
        rw [copyOf, hempty d hd]
        rfl
      refine ⟨fun d hd a hmem => ?_, rfl, rfl, fun d hd k => ?_, fun d hd k a hmem => ?_⟩
      · rw [runCalls, List.foldl_nil, hempty d hd] at hmem
        exact absurd hmem List.not_mem_nil
      · rw [runCalls, List.foldl_nil, contentsOf, hcopy d hd]
        rintro raw ⟨c, hc, -⟩
        exact List.not_mem_nil hc
      · rw [runCalls, List.foldl_nil, hcopy d hd] at hmem
        exact absurd hmem (by simp)
  | append_singleton pre c ih =>
      rw [runCalls, List.foldl_append]
      exact (ih ha.of_append).step hfit ha

/-- Link state databases that begin empty converge: after each call of `ospf6_receive_lsa` a database copy is the most
recent instance received with a correct checksum for its database; two sequences of calls by which the same LSAs
arrive end with the same database copies; and a database copy is never replaced by a less recent one. -/
theorem lsdb_converges (m : Mem) (hfit : ∀ i ∈ s.interfaces, i.area < s.areaList.length)
    (hempty : ∀ d : Lsdb, d.Scoped → d.get s = []) (ha : Admissible s calls) :
    (∀ pre, pre <+: calls → ∀ d, d.Scoped → ∀ k,
      Newest (Received s pre d k) (contentsOf (runCalls pre (s, m)) d k)) ∧
    (∀ calls', Admissible s calls' → (∀ x, x ∈ calls.map Call.arrival ↔ x ∈ calls'.map Call.arrival) →
      ∀ m' d, d.Scoped → ∀ k,
        contentsOf (runCalls calls (s, m)) d k = contentsOf (runCalls calls' (s, m')) d k) ∧
    ∀ pre c, pre ++ [c] <+: calls → ∀ d, d.Scoped → ∀ k, ∀ z ∈ contentsOf (runCalls pre (s, m)) d k,
      ∃ z' ∈ contentsOf (runCalls (pre ++ [c]) (s, m)) d k, z.1.rank ≤ z'.1.rank := by
  have hnewest : ∀ pre, pre <+: calls → ∀ d, d.Scoped → ∀ k,
      Newest (Received s pre d k) (contentsOf (runCalls pre (s, m)) d k) := by
    rintro pre ⟨post, rfl⟩ d hd k
    exact (converged_run hfit hempty ha.of_append).newest d hd k
  refine ⟨hnewest, fun calls' ha' hsame m' d hd k => ?_, fun pre c hpre d hd k z hz => ?_⟩
  · have h := (converged_run (m := m) hfit hempty ha).newest d hd k
    have h' := (converged_run (m := m') hfit hempty ha').newest d hd k
    exact h.unique ha h' hsame
  · have h := hnewest pre ((List.prefix_append pre [c]).trans hpre) d hd k
    have h' := hnewest (pre ++ [c]) hpre d hd k
    rw [Option.mem_def.mp hz] at h
    obtain ⟨raw, hraw, rfl, -⟩ := h
    cases hz' : contentsOf (runCalls (pre ++ [c]) (s, m)) d k with
    | none =>
        rw [hz'] at h'
        exact absurd (received_concat.mpr (.inl hraw)) (h' raw)
    | some z' =>
        rw [hz'] at h'
        obtain ⟨-, -, -, hmax⟩ := h'
        exact ⟨z', rfl, hmax raw (received_concat.mpr (.inl hraw))⟩

end Run

/-- A Router-LSA of router 2 with a sequence number. -/
def sampleRaw (seqnum : UInt32) : RawLsa :=
  let header : LsaHeader := ⟨lstypeRouter, 0, 2, seqnum, 0, 24⟩
  ⟨0, { header with checksum := lsaChecksum header [0, 0, 0, 0x13] }, [0, 0, 0, 0x13]⟩

/-- Two instances of it, two seconds apart, the more recent one first. -/
def sampleCalls : List Call :=
  [⟨fun _ => ⟨5, 0⟩, ⟨0, 2⟩, 1, sampleRaw 4⟩, ⟨fun _ => ⟨7, 0⟩, ⟨0, 2⟩, 1, sampleRaw 3⟩]

theorem sampleCalls_still {c : Call} (hc : c ∈ sampleCalls) (n : Nat) : c.clock n = c.clock 0 := by
  obtain rfl | rfl := List.mem_pair.mp hc <;> rfl

/-- A sibling with a full adjacency to router 2. -/
def withNeighbor : State Unit :=
  withInterface { (default : Interface) with neighborList := [{ Neighbor.create 2 with state := .full }] }

theorem sampleCalls_admissible : Admissible withNeighbor sampleCalls where
  sender := by decide
  whole := by decide
  young c hc n := by
    have hyoung : ∀ c ∈ sampleCalls, shownAge c.raw.age (c.clock 0) (c.clock 0) ≠ maxage := by decide
    rw [sampleCalls_still hc n]
    exact hyoung c hc
  normal c hc n := by
    have hnormal : ∀ c ∈ sampleCalls, 0 ≤ (c.clock 0).usec ∧ (c.clock 0).usec < 1000000 := by decide
    rw [sampleCalls_still hc n]
    exact hnormal c hc
  apart := by simp [sampleCalls, Timeval.usecs, minLsArrival]
  bodies := by decide

theorem lsdb_converges_two_instances :
    (runCalls sampleCalls (withNeighbor, default)).1.fault = false ∧
    (∀ pre, pre <+: sampleCalls → ∀ d, d.Scoped → ∀ k,
      Newest (Received (withNeighbor) pre d k)
        (contentsOf (runCalls pre (withNeighbor, default)) d k)) ∧
    (∀ calls', Admissible (withNeighbor) calls' →
      (∀ x, x ∈ sampleCalls.map Call.arrival ↔ x ∈ calls'.map Call.arrival) → ∀ m' d, d.Scoped → ∀ k,
        contentsOf (runCalls sampleCalls (withNeighbor, default)) d k =
          contentsOf (runCalls calls' (withNeighbor, m')) d k) ∧
    ∀ pre c, pre ++ [c] <+: sampleCalls → ∀ d, d.Scoped → ∀ k,
      ∀ z ∈ contentsOf (runCalls pre (withNeighbor, default)) d k,
      ∃ z' ∈ contentsOf (runCalls (pre ++ [c]) (withNeighbor, default)) d k,
        z.1.rank ≤ z'.1.rank :=
  ⟨by decide +kernel, lsdb_converges default (by decide) (by
    intro d hd
    cases d with
    | interface oi => cases oi <;> rfl
    | area oa => cases oa <;> rfl
    | as => rfl
    | _ => exact hd.elim) sampleCalls_admissible⟩

end Harry.Sibling
