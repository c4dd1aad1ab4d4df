import Harry.SiblingCopies

/-! The reception of an LSA that is an answer to a request: the entry goes when the LSA is flooded, unless the LSA never
gets to that. -/

namespace Harry.Sibling

open Harry.Base Harry.Rfp Prog

variable {ρ : Type}

section Reception

variable {sender : NbrRef} {hostnum : UInt32} {raw : RawLsa} {req : Addr} {x : State ρ × Mem} {d : Lsdb}

/-- An LSA from a packet, as `ospf6_lsa_create` makes it at a time. -/
def RawLsa.born (raw : RawLsa) (t : Timeval) : Lsa := Lsa.born (.ofHeader raw.header raw.body false) raw.age t

/-- The LSAs at step (5) of `ospf6_receive_lsa`. -/
def receivedMem (m : Mem) (raw : RawLsa) (hostnum : UInt32) (d : Lsdb) : Mem :=
  (receiveMemFor m raw hostnum d).refresh m.heap.length

/-- The received LSA is more recent than a database copy. -/
def NewerThan (raw : RawLsa) (hostnum : UInt32) (d : Lsdb) (m : Mem) (old : Addr) : Prop :=
  let m' := receivedMem m raw hostnum d
  compareAt (m'.lsa m.heap.length) (m'.lsa old) (m'.clock 0) (m'.clock 1) < 0

/-- A database copy has been installed less than `MIN_LS_ARRIVAL` before. -/
def Early (raw : RawLsa) (hostnum : UInt32) (d : Lsdb) (m : Mem) (old : Addr) : Prop :=
  let m' := (receivedMem m raw hostnum d).compared m.heap.length old
  (m'.lsa old).arrivedAt (m'.clock 0) = true

/-- The LSA is discarded for its checksum, its scope or `MIN_LS_ARRIVAL`. -/
def Discarded (sender : NbrRef) (hostnum : UInt32) (raw : RawLsa) (x : State ρ × Mem) : Prop :=
  lsaChecksum raw.header raw.body ≠ raw.header.checksum ∨ x.1.lsdbFor sender raw.header.type = none ∨
    ∃ d old, x.1.lsdbFor sender raw.header.type = some d ∧ copyOf x d raw.header.key = some old ∧
      NewerThan raw hostnum d x.2 old ∧ Early raw hostnum d x.2 old

/-- A request is settled by an LSA: the entry goes, or the LSA is discarded, or `bad_lsreq` is scheduled. -/
def Settled [RouteCalc ρ] (sender : NbrRef) (hostnum : UInt32) (raw : RawLsa) (req : Addr) (x : State ρ × Mem) : Prop :=
  let y := (receiveLsa sender hostnum raw x.1 x.2).2
  req ∉ y.1.requests sender ∨ Discarded sender hostnum raw x ∨
    x.1.events.count (.badLsreq sender) < y.1.events.count (.badLsreq sender)

/-- A request is satisfied by an LSA: it is settled, and no assertion fails on the way. -/
def Satisfied [RouteCalc ρ] (sender : NbrRef) (hostnum : UInt32) (raw : RawLsa) (req : Addr) (x : State ρ × Mem) : Prop :=
  (receiveLsa sender hostnum raw x.1 x.2).2.1.fault = false ∧ Settled sender hostnum raw req x

/-- The LSA is installed, and what is in the database is not in the way. -/
def Admitted (hostnum : UInt32) (raw : RawLsa) (d : Lsdb) (x : State ρ × Mem) : Prop :=
  ∀ old ∈ copyOf x d raw.header.key, NewerThan raw hostnum d x.2 old ∧ ¬ Early raw hostnum d x.2 old

/-- The missing return of `ospf6_is_maxage_lsa_drop` makes a `MaxAge` LSA of which there is no copy be dropped. -/
def Dropped (raw : RawLsa) (d : Lsdb) (x : State ρ × Mem) : Prop :=
  shownAge raw.age (x.2.clock 0) (x.2.clock 1) = maxage ∧ copyOf x d raw.header.key = none ∧
    x.1.outside.maxageLsaDrop = true

/-- An LSA that does not get to the requests: it is dropped, or it is installed but not flooded in the area of its
sender. -/
def Blocked (sender : NbrRef) (hostnum : UInt32) (raw : RawLsa) (x : State ρ × Mem) : Prop :=
  lsaChecksum raw.header raw.body = raw.header.checksum ∧ ∃ d, x.1.lsdbFor sender raw.header.type = some d ∧
    (Dropped raw d x ∨
      Admitted hostnum raw d x ∧ (raw.header.advRouter = x.1.routerId ∨ InStub sender raw.header.type x.1))

/-- The lists that get an LSA or a copy of it: those it is flooded to, its database, and the acknowledgements. -/
def Lsdb.Given (db : Lsdb) (sender : NbrRef) (d : Lsdb) : Prop :=
  db.Flooded (some sender) ∨ db = d ∨ db = .interfaceLsack sender.oi

/-- If the LSA is to be installed, it has a body or is not on any list that gets it, and its routes are calculated. -/
def Installable [RouteCalc ρ] (sender : NbrRef) (hostnum : UInt32) (raw : RawLsa) (x : State ρ × Mem) : Prop :=
  lsaChecksum raw.header raw.body = raw.header.checksum → ∀ d, x.1.lsdbFor sender raw.header.type = some d →
    Admitted hostnum raw d x → (∀ db : Lsdb, db.Given sender d → Free raw.header db x) ∧ Calculates x.1.ground raw d

/-- A neighbor in Exchange or Loading with a request. -/
structure Requesting (sender : NbrRef) (key : LsaKey) (req : Addr) (x : State ρ × Mem) : Prop where
  holds : ∃ n, x.1.Holds sender n ∧ (n.state = .exchange ∨ n.state = .loading)
  entry : copyOf x (.neighbor sender .requestList) key = some req
  listed : ∀ db : Lsdb, ∀ a ∈ db.get x.1, a < x.2.heap.length
  nodup : (x.1.requests sender).Nodup
  wired : Wired sender x.1
  sound : x.1.ground.Sound
  fault : x.1.fault = false

theorem Requesting.requests (h : Requesting sender raw.header.key req x) :
    ∀ a ∈ x.1.requests sender, a < x.2.heap.length :=
  h.listed (.neighbor sender .requestList)

theorem Requesting.valid (h : Requesting sender raw.header.key req x) : Valid x := fun d _ => h.listed d

theorem Requesting.inside (h : Requesting sender raw.header.key req x) : sender.oi < x.1.interfaces.length := by
  obtain ⟨n, hn, -⟩ := h.holds
  obtain ⟨i, hi, -⟩ := Option.bind_eq_some_iff.mp hn
  exact (List.getElem?_eq_some_iff.mp hi).1

theorem receiveMemFor_of_lt (m : Mem) (hostnum : UInt32) (raw : RawLsa) (d : Lsdb) {a : Addr} (ha : a < m.heap.length) :
    (receiveMemFor m raw hostnum d).lsa a = m.lsa a := by
  rw [receiveMemFor, lsa_update, if_neg fun h => ha.ne h.1.symm]
  exact (push_update_self m.tick _ _).2 a ha

theorem length_receiveMemFor (m : Mem) (hostnum : UInt32) (raw : RawLsa) (d : Lsdb) :
    (receiveMemFor m raw hostnum d).heap.length = m.heap.length + 1 := by
  have hlength : (receiveMem m raw hostnum).heap.length = m.heap.length + 1 := length_receiveMem
  exact (List.length_modify _ _ _).trans hlength

/-- The received LSA answers the request. -/
theorem Requesting.answer (h : Requesting sender raw.header.key req x) (hostnum : UInt32) (d : Lsdb) :
    Answer sender x.2.heap.length req (x.1, receiveMemFor x.2 raw hostnum d) := by
  have hreq : req < x.2.heap.length := h.requests req (List.mem_of_find?_eq_some h.entry)
  have hlength := length_receiveMemFor x.2 hostnum raw d
  refine ⟨?_, fun a ha => ?_, h.nodup, ?_, hreq.ne', h.holds⟩
  · rw [hlength]
    exact Nat.lt_succ_self _
  · rw [hlength]
    exact (h.requests a ha).trans (Nat.lt_succ_self _)
  · rw [receiveMemFor_lsa]
    refine Eq.trans (find?_congr fun a ha => ?_) h.entry
    show ((receiveMemFor x.2 raw hostnum d).key a == some raw.header.key) = _
    have hquiet : Quiet x (x.1, receiveMemFor x.2 raw hostnum d) := quiet_receiveMemFor
    rw [hquiet.key (h.requests a ha)]

theorem Placed.created (hd : x.1.lsdbFor sender raw.header.type = some d) (hostnum : UInt32) :
    Placed sender x.2.heap.length (x.1, receiveMemFor x.2 raw hostnum d) := by
  refine ⟨d, ?_, ?_⟩
  · rw [receiveMemFor_lsa]
  · rw [receiveMemFor_lsa]
    exact hd

/-- When the comparison of the received LSA with the entry has one outcome, whenever in the call it is made. -/
def Unchanging (raw : RawLsa) (req : Addr) (m : Mem) : Prop :=
  ∀ i j i' j', compareAt (raw.born (m.clock 0)) (m.lsa req) (m.clock i) (m.clock j) =
    compareAt (raw.born (m.clock 0)) (m.lsa req) (m.clock i') (m.clock j')

theorem Requesting.steady (h : Requesting sender raw.header.key req x) (hostnum : UInt32) (d : Lsdb)
    (hle : ∀ i j, compareAt (raw.born (x.2.clock 0)) (x.2.lsa req) (x.2.clock i) (x.2.clock j) ≤ 0)
    (hconst : Unchanging raw req x.2) :
    Steady x.2.heap.length req (compareAt (raw.born (x.2.clock 0)) (x.2.lsa req) (x.2.clock 0) (x.2.clock 0))
      (x.1, receiveMemFor x.2 raw hostnum d) where
  le := hle 0 0
  eq i j := by
    have hreq : req < x.2.heap.length := h.requests req (List.mem_of_find?_eq_some h.entry)
    rw [receiveMemFor_lsa, receiveMemFor_of_lt x.2 hostnum raw d hreq]
    exact hconst (i + 1) (j + 1) 0 0

variable [RouteCalc ρ]

/-- The checksum and the scope are looked at, and what `ospf6_is_maxage_lsa_drop` returns. -/
theorem receiveLsa_run (hostnum : UInt32) (h : Requesting sender raw.header.key req x)
    (hsum : lsaChecksum raw.header raw.body = raw.header.checksum) (hd : x.1.lsdbFor sender raw.header.type = some d) :
    (Dropped raw d x → receiveLsa sender hostnum raw x.1 x.2 = ((), x.1, receivedMem x.2 raw hostnum d)) ∧
    (¬ Dropped raw d x → receiveLsa sender hostnum raw x.1 x.2 =
      (receiveFrom5 sender raw x.2.heap.length (some d) : M ρ Unit) x.1 (receivedMem x.2 raw hostnum d)) := by
  obtain ⟨s, m⟩ := x
  have hcreated : receiveLsa sender hostnum raw s m =
      (if lsaChecksum raw.header raw.body ≠ raw.header.checksum then pure ()
        else do
          let lsdb ← receiveLsdb sender raw.header.type
          if lsdb.isNone then pure ()
          else do
            modifyInfo m.heap.length fun l => { l with lsdb := lsdb }
            let drop ← isMaxageLsaDrop m.heap.length
            if drop then pure () else receiveFrom5 sender raw m.heap.length lsdb : M ρ Unit)
        s (receiveMem m raw hostnum) := rfl
  have hscoped := lsdbFor_scoped hd
  have hrun : receiveLsa sender hostnum raw s m = (do
      let drop ← isMaxageLsaDrop m.heap.length
      if drop then pure () else receiveFrom5 sender raw m.heap.length (some d) : M ρ Unit) s
        (receiveMemFor m raw hostnum d) := by
    rw [hcreated, if_neg (not_not.mpr hsum), run_bind (receiveLsdb_eq h.inside), hd]
    rfl
  have hquiet : Quiet (s, m) (s, receivedMem m raw hostnum d) :=
    Frame.trans quiet_receiveMemFor (quiet_ageCurrent m.heap.length s _)
  have hself : ((receivedMem m raw hostnum d).lsa m.heap.length).header = raw.header ∧
      ((receivedMem m raw hostnum d).lsa m.heap.length).lsdb = some d := by
    constructor
    · rw [receivedMem, congrArg LsaInfo.header (info_refresh _ m.heap.length m.heap.length), receiveMemFor_lsa]
      rfl
    · rw [receivedMem, congrArg LsaInfo.lsdb (info_refresh _ m.heap.length m.heap.length), receiveMemFor_lsa]
  have hage : ((receiveMemFor m raw hostnum d).lsa m.heap.length).ageAt (m.clock 1) =
      shownAge raw.age (m.clock 0) (m.clock 1) := by
    rw [receiveMemFor_lsa]
    rfl
  have hdrop : (isMaxageLsaDrop m.heap.length : M ρ Bool) s (receiveMemFor m raw hostnum d) =
      (shownAge raw.age (m.clock 0) (m.clock 1) == maxage &&
        ((copyOf (s, m) d raw.header.key).isNone && s.outside.maxageLsaDrop), s, receivedMem m raw hostnum d) := by
    have hstep : (isMaxageLsaDrop m.heap.length : M ρ Bool) s (receiveMemFor m raw hostnum d) =
        (if (((receiveMemFor m raw hostnum d).lsa m.heap.length).ageAt (m.clock 1) == maxage) = true then do
          let l ← info m.heap.length
          let old ← lsdbLookup l.header.key l.lsdb
          let s ← observe
          pure (old.isNone && s.outside.maxageLsaDrop)
        else pure false : M ρ Bool) s (receivedMem m raw hostnum d) := rfl
    rw [hstep, hage]
    cases shownAge raw.age (m.clock 0) (m.clock 1) == maxage with
    | false => rfl
    | true =>
        have hlook : (lsdbLookup ((receivedMem m raw hostnum d).lsa m.heap.length).toLsaInfo.header.key
            ((receivedMem m raw hostnum d).lsa m.heap.length).toLsaInfo.lsdb : M ρ (Option Addr)) s
              (receivedMem m raw hostnum d) = (copyOf (s, m) d raw.header.key, s, receivedMem m raw hostnum d) := by
          rw [hself.1, hself.2, ← hquiet.copyOf h.valid hscoped]
          rfl
        rw [if_pos rfl, run_bind (info_run _ _ _), run_bind hlook]
        rfl
  rw [hrun, run_bind hdrop]
  have hiff : ((shownAge raw.age (m.clock 0) (m.clock 1) == maxage &&
      ((copyOf (s, m) d raw.header.key).isNone && s.outside.maxageLsaDrop)) = true) ↔ Dropped raw d (s, m) := by
    simp [Dropped]
  refine ⟨fun hdropped => ?_, fun hnot => ?_⟩
  · rw [if_pos (hiff.mpr hdropped)]
    rfl
  · rw [if_neg fun htrue => hnot (hiff.mp htrue)]

/-- Step (5) of `ospf6_receive_lsa` past the check of the arrival. -/
def receiveInstall (sender : NbrRef) (new : Addr) : M ρ Unit := do
  let l ← info new
  let s ← observe
  when (l.header.advRouter ≠ s.routerId) (flood (some sender) new)
  installLsa new
  acknowledgeLsa new (-1) sender

theorem receiveNewer_eq (sender : NbrRef) (new : Addr) (old : Option Addr) : (receiveNewer sender new old : M ρ Unit) =
    arrivedEarly old >>= fun early => if early then pure () else receiveInstall sender new := rfl

/-- Steps (5) to (8) by what has been found in the database. -/
def receiveFound (sender : NbrRef) (raw : RawLsa) (new : Addr) : Option Addr → M ρ Unit
  | none => receiveNewer sender new none
  | some old => do
      let ismoreRecent ← lsaCompare new old
      let o ← info old
      when (raw.header.seqnum = o.header.seqnum) (modifyInfo new fun l => { l with duplicate := true })
      if ismoreRecent < 0 then receiveNewer sender new (some old)
      else receiveOlder sender new old ismoreRecent

theorem receiveFound_none (sender : NbrRef) (raw : RawLsa) (new : Addr) :
    (receiveFound sender raw new none : M ρ Unit) = receiveInstall sender new := rfl

/-- A database copy that has been there for long enough. -/
theorem receiveNewer_run (sender : NbrRef) (new : Addr) {old : Addr} (s : State ρ) {m : Mem}
    (h : ¬ (m.lsa old).arrivedAt (m.clock 0) = true) :
    (receiveNewer sender new (some old) : M ρ Unit) s m = receiveInstall sender new s m.tick := by
  have harrive : (arrivedEarly (some old) : M ρ Bool) s m = (false, s, m.tick) := by
    show ((m.lsa old).arrivedAt (m.clock 0), s, m.tick) = _
    rw [Bool.eq_false_iff.mpr h]
  rw [receiveNewer_eq, run_bind harrive, if_neg Bool.false_ne_true]

/-- One that has not. -/
theorem receiveNewer_early (sender : NbrRef) (new : Addr) {old : Addr} (s : State ρ) {m : Mem}
    (h : (m.lsa old).arrivedAt (m.clock 0) = true) :
    (receiveNewer sender new (some old) : M ρ Unit) s m = ((), s, m.tick) := by
  have harrive : (arrivedEarly (some old) : M ρ Bool) s m = (true, s, m.tick) := by
    show ((m.lsa old).arrivedAt (m.clock 0), s, m.tick) = _
    rw [h]
  rw [receiveNewer_eq, run_bind harrive, if_pos rfl]
  rfl

theorem receiveFrom5_run (h : Requesting sender raw.header.key req x)
    (hd : x.1.lsdbFor sender raw.header.type = some d) : (receiveFrom5 sender raw x.2.heap.length (some d) : M ρ Unit) x.1
      (receivedMem x.2 raw hostnum d) = (receiveFound sender raw x.2.heap.length
        (copyOf x d raw.header.key) : M ρ Unit) x.1
        (receivedMem x.2 raw hostnum d) := by
  have hquiet : Quiet x (x.1, receivedMem x.2 raw hostnum d) :=
    Frame.trans quiet_receiveMemFor (quiet_ageCurrent x.2.heap.length x.1 _)
  have hlook : (lsdbLookup raw.header.key (some d) : M ρ (Option Addr)) x.1 (receivedMem x.2 raw hostnum d) =
      (copyOf x d raw.header.key, x.1, receivedMem x.2 raw hostnum d) := by
    rw [← hquiet.copyOf h.valid (lsdbFor_scoped hd)]
    rfl
  have hstep : (receiveFrom5 sender raw x.2.heap.length (some d) : M ρ Unit) =
      lsdbLookup raw.header.key (some d) >>= receiveFound sender raw x.2.heap.length := rfl
  rw [hstep, run_bind hlook]

/-- A comparison with a database copy, and the mark of a duplicate. -/
theorem receiveFound_run (hostnum : UInt32) (h : Requesting sender raw.header.key req x)
    (hd : x.1.lsdbFor sender raw.header.type = some d) {old : Addr} (hold : copyOf x d raw.header.key = some old) : ∃ m',
      Keeps sender (x.1, receiveMemFor x.2 raw hostnum d) (x.1, m') ∧
      Quiet (x.1, receiveMemFor x.2 raw hostnum d) (x.1, m') ∧
      ((m'.lsa old).arrivedAt (m'.clock 0) = true ↔ Early raw hostnum d x.2 old) ∧
      (NewerThan raw hostnum d x.2 old → (receiveFound sender raw x.2.heap.length (some old) : M ρ Unit) x.1
        (receivedMem x.2 raw hostnum d) = receiveNewer sender x.2.heap.length (some old) x.1 m') ∧
      (¬ NewerThan raw hostnum d x.2 old → ∃ c, (receiveFound sender raw x.2.heap.length (some old) : M ρ Unit) x.1
        (receivedMem x.2 raw hostnum d) = receiveOlder sender x.2.heap.length old c x.1 m') := by
  obtain ⟨s, m⟩ := x
  have hlt : old < m.heap.length := h.valid d (lsdbFor_scoped hd) old (List.mem_of_find?_eq_some hold)
  have hkeeps : Keeps sender (s, receiveMemFor m raw hostnum d) (s, receivedMem m raw hostnum d) :=
    keeps_ageCurrent m.heap.length s _
  have hheader : ((receivedMem m raw hostnum d).lsa m.heap.length).header = raw.header := by
    rw [receivedMem, congrArg LsaInfo.header (info_refresh _ m.heap.length m.heap.length), receiveMemFor_lsa]
    rfl
  have hkey : ((receivedMem m raw hostnum d).lsa m.heap.length).header.key =
      ((receivedMem m raw hostnum d).lsa old).header.key := by
    have hfound := List.find?_some hold
    rw [hheader, receivedMem, congrArg LsaInfo.header (info_refresh _ m.heap.length old),
      receiveMemFor_of_lt m hostnum raw d hlt]
    exact (header_of_key (by simpa using hfound)).symm
  have hcompare := lsaCompare_run hkey hlt.ne' s
  let m₁ := (receivedMem m raw hostnum d).compared m.heap.length old
  let dup : M ρ Unit := when (raw.header.seqnum = (m₁.lsa old).toLsaInfo.header.seqnum)
    (modifyInfo m.heap.length fun l => { l with duplicate := true })
  obtain ⟨m', hdup, hkeeps', hquiet', harrived⟩ : ∃ m', dup s m₁ = ((), s, m') ∧ Keeps sender (s, m₁) (s, m') ∧
      Quiet (s, m₁) (s, m') ∧ ((m'.lsa old).arrivedAt (m'.clock 0) = (m₁.lsa old).arrivedAt (m₁.clock 0)) := by
    by_cases hseq : raw.header.seqnum = (m₁.lsa old).toLsaInfo.header.seqnum
    · refine ⟨m₁.update m.heap.length fun l => { l with duplicate := true }, ?_, ?_, ?_, ?_⟩
      · show when _ _ s m₁ = _
        unfold when
        rw [if_pos hseq]
        rfl
      · exact keeps_modifyInfo m.heap.length (f := fun l => { l with duplicate := true }) (fun _ => rfl) s m₁
      · exact quiet_modifyInfo m.heap.length (f := fun l => { l with duplicate := true }) (fun _ => rfl) s m₁
      · rw [lsa_update, if_neg fun heq => hlt.ne' heq.1]
        rfl
    · refine ⟨m₁, ?_, Frame.refl _, Frame.refl _, rfl⟩
      show when _ _ s m₁ = _
      unfold when
      rw [if_neg hseq]
      rfl
  have hquiet : Quiet (s, receiveMemFor m raw hostnum d) (s, receivedMem m raw hostnum d) :=
    quiet_ageCurrent m.heap.length s _
  refine ⟨m', Frame.trans (Frame.trans hkeeps (.refreshes (refreshes_compared _ _ _))) hkeeps',
    Frame.trans (Frame.trans hquiet (.of_refreshes rfl (refreshes_compared _ _ _))) hquiet', ?_, fun hnew => ?_,
    fun hnew => ?_⟩
  · rw [harrived]
    exact Iff.rfl
  · have hnew' : compareAt _ _ _ _ < 0 := hnew
    show (lsaCompare m.heap.length old >>= fun c => info old >>= fun o => _ : M ρ Unit) s _ = _
    rw [run_bind hcompare, run_bind (info_run _ _ _), run_bind hdup, if_pos hnew']
  · have hnew' : ¬ compareAt _ _ _ _ < 0 := hnew
    refine ⟨((lsaCompare m.heap.length old : M ρ Int) s (receivedMem m raw hostnum d)).1, ?_⟩
    rw [hcompare]
    show (lsaCompare m.heap.length old >>= fun c => info old >>= fun o => _ : M ρ Unit) s _ = _
    rw [run_bind hcompare, run_bind (info_run _ _ _), run_bind hdup, if_neg hnew']

section Install

variable {new : Addr} {c : Int} {m : Mem}

omit [RouteCalc ρ] in
theorem Placed.scoped (hp : Placed sender new x) : ∃ d, (x.2.lsa new).lsdb = some d ∧ d.Scoped := by
  obtain ⟨d, hd, hfor⟩ := hp
  exact ⟨d, hd, lsdbFor_scoped hfor⟩

/-- The installation and the acknowledgement of an LSA. -/
theorem keeps_installed {y : State ρ × Mem} (hlsdb : ∃ d, (y.2.lsa new).lsdb = some d ∧ d.Scoped) :
    Keeps sender y ((installLsa new >>= fun _ => acknowledgeLsa new (-1) sender : M ρ Unit) y.1 y.2).2 := by
  obtain ⟨d, hd, hscoped⟩ := hlsdb
  exact Frame.trans (installLsa_keeps hd hscoped) (keeps_acknowledgeLsa new (-1) sender _ _)

theorem receiveInstall_run (sender : NbrRef) (new : Addr) (s : State ρ) (m : Mem) :
    (receiveInstall sender new : M ρ Unit) s m = ((when ((m.lsa new).header.advRouter ≠ s.routerId)
      (flood (some sender) new) : M ρ Unit) >>= fun _ => installLsa new >>= fun _ =>
        acknowledgeLsa new (-1) sender) s m := rfl

/-- An LSA that is flooded to its sender's area takes the entry off the list. -/
theorem receiveInstall_removes (ha : Answer sender new req x) (hs : Steady new req c x) (hw : Wired sender x.1)
    (hp : Placed sender new x) (hother : (x.2.lsa new).header.advRouter ≠ x.1.routerId)
    (hstub : ¬ InStub sender (x.2.lsa new).header.type x.1) (h : Keeps sender x (x.1, m)) :
    req ∉ State.requests sender ((receiveInstall sender new : M ρ Unit) x.1 m).2.1 := by
  have hheader : (m.lsa new).header = (x.2.lsa new).header := h.header new ha.new_lt
  have hlsdb : (m.lsa new).lsdb = (x.2.lsa new).lsdb := h.lsdb new ha.new_lt
  have hgone := flood_removes ha hs hw hp hstub h
  have hquiet := quiet_flood (ρ := ρ) (some sender) new x.1 m
  generalize hrun : (flood (some sender) new : M ρ Unit) x.1 m = r at hgone hquiet
  obtain ⟨u, q, m'⟩ := r
  obtain ⟨d, hd, hscoped⟩ := hp.scoped
  have hlt : new < m.heap.length := ha.new_lt.trans_le h.length
  have hlsdb' : (m'.lsa new).lsdb = some d := (hquiet.lsdb hlt).trans (hlsdb.trans hd)
  rw [receiveInstall_run]
  unfold when
  rw [if_pos (by rw [hheader]; exact hother), run_bind hrun]
  exact fun hreq => hgone ((keeps_installed ⟨d, hlsdb', hscoped⟩ : Keeps sender (q, m') _).shrinks req hreq)

/-- An LSA that is not flooded there leaves it. -/
theorem receiveInstall_keeps (hw : Wired sender x.1) (hlt : new < x.2.heap.length) (hp : Placed sender new x)
    (hskip : (x.2.lsa new).header.advRouter = x.1.routerId ∨ InStub sender (x.2.lsa new).header.type x.1)
    (h : Keeps sender x (x.1, m)) : Keeps sender x ((receiveInstall sender new : M ρ Unit) x.1 m).2 := by
  have hheader : (m.lsa new).header = (x.2.lsa new).header := h.header new hlt
  obtain ⟨d, hd, hscoped⟩ := hp.scoped
  rw [receiveInstall_run]
  unfold when
  rw [hheader]
  by_cases hown : (x.2.lsa new).header.advRouter = x.1.routerId
  · rw [if_neg (not_not.mpr hown)]
    exact Frame.trans h (keeps_installed ⟨d, (h.lsdb new hlt).trans hd, hscoped⟩)
  · rw [if_pos hown]
    have hkeeps := flood_keeps hw hlt (hskip.resolve_left hown) h
    refine Frame.trans hkeeps (keeps_installed ⟨d, ?_, hscoped⟩)
    exact (hkeeps.lsdb new hlt).trans hd

omit [RouteCalc ρ] in
/-- An LSA that is not more recent than the database copy, but on the list, is a bad request. -/
theorem receiveOlder_run [RouteCalc ρ] (ha : Answer sender new req x) (old : Addr) (v : Int)
    (h : Keeps sender x (x.1, m)) :
    receiveOlder sender new old v x.1 m = ((), { x.1 with events := x.1.events ++ [.badLsreq sender] }, m) := by
  have hheader : (m.lsa new).header = (x.2.lsa new).header := h.header new ha.new_lt
  have hlook : (lsdbLookup (m.lsa new).toLsaInfo.header.key (some (.neighbor sender .requestList)) : M ρ (Option Addr))
      x.1 m = (some req, x.1, m) := by
    have hentry := h.entry ha
    rw [hheader]
    show (copyOf (x.1, m) (.neighbor sender .requestList) _, x.1, m) = _
    rw [hentry]
  unfold receiveOlder
  rw [run_bind (info_run new x.1 m), run_bind hlook, Option.isSome_some, if_pos rfl]
  rfl

end Install

omit [RouteCalc ρ] in
/-- The LSA as it is created, and what is done before step (5). -/
theorem keeps_created (sender : NbrRef) (raw : RawLsa) (hostnum : UInt32) (d : Lsdb) (x : State ρ × Mem) :
    Keeps sender x (x.1, receiveMemFor x.2 raw hostnum d) := by
  have hlength := length_receiveMemFor x.2 hostnum raw d
  have hlsa : ∀ a < x.2.heap.length, (receiveMemFor x.2 raw hostnum d).lsa a = x.2.lsa a :=
    fun a ha => receiveMemFor_of_lt x.2 hostnum raw d ha
  refine ⟨rfl, ?_, fun a ha => ?_, fun a ha => ?_, fun a ha n => ⟨n + 1, ?_⟩⟩
  · show x.2.heap.length ≤ (receiveMemFor x.2 raw hostnum d).heap.length
    rw [hlength]
    exact Nat.le_succ _
  · exact congrArg (fun l : Lsa => l.header) (hlsa a ha)
  · exact congrArg (fun l : Lsa => l.lsdb) (hlsa a ha)
  · show ((receiveMemFor x.2 raw hostnum d).lsa a).ageAt _ = _
    rw [hlsa a ha]
    rfl

/-- A blocked LSA leaves the entry on the list, and nothing is scheduled. -/
theorem not_settled_of_blocked (h : Requesting sender raw.header.key req x) (hb : Blocked sender hostnum raw x) :
    ¬ Settled sender hostnum raw req x := by
  obtain ⟨hsum, d, hd, hcase⟩ := hb
  obtain ⟨hdropped, hnot⟩ := receiveLsa_run hostnum h hsum hd
  have hstart := keeps_created sender raw hostnum d x
  -- nothing that counts has changed
  have hkeeps : Keeps sender x (receiveLsa sender hostnum raw x.1 x.2 : Unit × State ρ × Mem).2 := by
    by_cases hdrop : Dropped raw d x
    · rw [hdropped hdrop]
      exact Frame.trans hstart (keeps_ageCurrent x.2.heap.length x.1 _)
    · obtain ⟨hcopies, hskip⟩ := hcase.resolve_left hdrop
      have hanswer := h.answer hostnum d
      have hskip' : ((receiveMemFor x.2 raw hostnum d).lsa x.2.heap.length).header.advRouter = x.1.routerId ∨
          InStub sender ((receiveMemFor x.2 raw hostnum d).lsa x.2.heap.length).header.type x.1 := by
        rw [receiveMemFor_lsa]
        exact hskip
      have hinstall : ∀ m', Keeps sender (x.1, receiveMemFor x.2 raw hostnum d) (x.1, m') →
          Keeps sender x ((receiveInstall sender x.2.heap.length : M ρ Unit) x.1 m').2 := fun m' hm' =>
        Frame.trans hstart (receiveInstall_keeps h.wired hanswer.new_lt (Placed.created hd hostnum) hskip' hm')
      rw [hnot hdrop, receiveFrom5_run h hd]
      cases hcopy : copyOf x d raw.header.key with
      | none =>
          rw [receiveFound_none]
          exact hinstall _ (keeps_ageCurrent x.2.heap.length x.1 _)
      | some old =>
          obtain ⟨hnewer, hearly⟩ := hcopies old hcopy
          obtain ⟨m', hm', -, harrived, hrun, -⟩ := receiveFound_run hostnum h hd hcopy
          rw [hrun hnewer, receiveNewer_run sender _ x.1 fun htrue => hearly (harrived.mp htrue)]
          exact hinstall _ (Frame.trans hm' (keeps_gettime x.1 m'))
  rintro (hgone | hdiscarded | hbad)
  · refine hgone ?_
    rw [hkeeps.requests]
    exact List.mem_of_find?_eq_some h.entry
  · obtain hbad | hnone | ⟨d', old, hd', hcopy, hnewer, hearly⟩ := hdiscarded
    · exact hbad hsum
    · rw [hd] at hnone
      exact absurd hnone (by simp)
    · obtain rfl := Option.some.inj (hd.symm.trans hd')
      obtain ⟨-, hnone, -⟩ | ⟨hcopies, -⟩ := hcase
      · rw [hnone] at hcopy
        exact absurd hcopy (by simp)
      · exact (hcopies old hcopy).2 hearly
  · exact absurd hbad (Nat.not_lt.mpr (congrArg Kept.bad hkeeps.kept).le)

/-- Any other LSA that is not less recent than the entry settles the request. -/
theorem settled_of_not_blocked (h : Requesting sender raw.header.key req x)
    (hle : ∀ i j, compareAt (raw.born (x.2.clock 0)) (x.2.lsa req) (x.2.clock i) (x.2.clock j) ≤ 0)
    (hconst : Unchanging raw req x.2) (hnot : ¬ Blocked sender hostnum raw x) :
    Settled sender hostnum raw req x := by
  by_cases hsum : lsaChecksum raw.header raw.body = raw.header.checksum
  swap
  · exact .inr (.inl (.inl hsum))
  cases hd : x.1.lsdbFor sender raw.header.type with
  | none => exact .inr (.inl (.inr (.inl hd)))
  | some d =>
      obtain ⟨-, hrun⟩ := receiveLsa_run hostnum h hsum hd
      have hdrop : ¬ Dropped raw d x := fun hdrop => hnot ⟨hsum, d, hd, .inl hdrop⟩
      have hanswer := h.answer hostnum d
      have hsteady := h.steady hostnum d hle hconst
      -- an LSA that is installed has been flooded
      have hinstall : Admitted hostnum raw d x → ∀ m', Keeps sender (x.1, receiveMemFor x.2 raw hostnum d) (x.1, m') →
          req ∉ State.requests sender ((receiveInstall sender x.2.heap.length : M ρ Unit) x.1 m').2.1 := by
        intro hcopies m' hm'
        have hflood : ¬ (raw.header.advRouter = x.1.routerId ∨ InStub sender raw.header.type x.1) :=
          fun hskip => hnot ⟨hsum, d, hd, .inr ⟨hcopies, hskip⟩⟩
        refine receiveInstall_removes (x := (x.1, receiveMemFor x.2 raw hostnum d)) hanswer hsteady h.wired
          (Placed.created hd hostnum) ?_ ?_ hm'
        · rw [receiveMemFor_lsa]
          exact fun hown => hflood (.inl hown)
        · rw [receiveMemFor_lsa]
          exact fun hstub => hflood (.inr hstub)
      unfold Settled
      rw [hrun hdrop, receiveFrom5_run h hd]
      cases hcopy : copyOf x d raw.header.key with
      | none =>
          unfold Admitted at hinstall
          rw [hcopy] at hinstall
          rw [receiveFound_none]
          exact .inl (hinstall (by simp) _ (keeps_ageCurrent x.2.heap.length x.1 _))
      | some old =>
          obtain ⟨m', hm', -, harrived, hnewer, holder⟩ := receiveFound_run hostnum h hd hcopy
          by_cases hnew : NewerThan raw hostnum d x.2 old
          · by_cases hearly : Early raw hostnum d x.2 old
            · exact .inr (.inl (.inr (.inr ⟨d, old, hd, hcopy, hnew, hearly⟩)))
            · rw [hnewer hnew, receiveNewer_run sender _ x.1 fun htrue => hearly (harrived.mp htrue)]
              refine .inl (hinstall (fun o ho => ?_) _ (Frame.trans hm' (keeps_gettime x.1 m')))
              rw [hcopy, Option.mem_def, Option.some.injEq] at ho
              exact ho ▸ ⟨hnew, hearly⟩
          · obtain ⟨v, hv⟩ := holder hnew
            rw [hv, receiveOlder_run hanswer old v hm']
            refine .inr (.inr ?_)
            show _ < List.count _ (x.1.events ++ [.badLsreq sender])
            rw [List.count_append, List.count_singleton_self]
            exact Nat.lt_succ_self _

/-! Nothing fails on the way. -/

omit [RouteCalc ρ] in
/-- The received LSA, and the lists that are free for it. -/
theorem Requesting.clear (h : Requesting sender raw.header.key req x) {B : Lsdb → Prop} {m : Mem}
    (hfree : ∀ db, B db → Free raw.header db x) (hm : Quiet (x.1, receiveMemFor x.2 raw hostnum d) (x.1, m)) :
    Clear x.1.ground raw x.2.heap.length B (x.1, m) := by
  have hcreated : Clear x.1.ground raw x.2.heap.length B (x.1, receiveMemFor x.2 raw hostnum d) := by
    have hlength := length_receiveMemFor x.2 hostnum raw d
    refine ⟨h.fault, rfl, ?_, ?_, ?_, fun db hdb => (hfree db hdb).next ?_ (fun a ha => ?_) fun _ hb => hb⟩
    · rw [hlength]
      exact Nat.lt_succ_self _
    · rw [receiveMemFor_lsa]
      rfl
    · rw [receiveMemFor_lsa]
      rfl
    · rw [hlength]
      exact Nat.le_succ _
    · exact congrArg Lsa.contents (receiveMemFor_of_lt x.2 hostnum raw d ha)
  exact hcreated.next hm.length (fun _ => hm.contents) h.fault rfl (fun _ hd => hd) fun _ _ _ hb => hb

theorem fault_receiveInstall {g : Ground ρ} {new : Addr} {m : Mem} (hg : g.Sound)
    (hsender : sender.oi < g.interfaces.length)
    (hd : d.There g) (hscoped : d.Scoped) (hcalc : Calculates g raw d) (hlsdb : (m.lsa new).lsdb = some d)
    (h : Clear g raw new (fun db => db.Given sender d) (x.1, m)) :
    ((receiveInstall sender new : M ρ Unit) x.1 m).2.1.fault = false := by
  have hflood : Leads (Clear g raw new fun db => db.Given sender d)
      (Clear g raw new fun db => db = d ∨ db = .interfaceLsack sender.oi ∨ False)
      (when ((m.lsa new).header.advRouter ≠ x.1.routerId) (flood (some sender) new) : M ρ Unit) := by
    refine .ite ((clear_flood hg (some sender) fun db hflooded hdb => ?_).mono (fun y hy => hy.mono ?_) fun _ hy => hy)
      (leads_done fun db hdb => .inr ?_)
    · obtain rfl | rfl | hfalse := hdb
      · cases db <;> first | exact hscoped | exact hflooded
      · exact hflooded
      · exact hfalse
    · rintro db (hflooded | rfl | rfl | hfalse)
      · exact .inl hflooded
      · exact .inr (.inl rfl)
      · exact .inr (.inr rfl)
      · exact hfalse.elim
    · exact hdb.imp_right fun hdb => hdb.resolve_right id
  have hclear := hflood x.1 m h
  have hquiet : Quiet (x.1, m) ((when ((m.lsa new).header.advRouter ≠ x.1.routerId)
      (flood (some sender) new) : M ρ Unit) x.1 m).2 := Within.when (quiet_flood (some sender) new) x.1 m
  rw [receiveInstall_run]
  generalize hrun : (when ((m.lsa new).header.advRouter ≠ x.1.routerId)
    (flood (some sender) new) : M ρ Unit) x.1 m = r at hclear hquiet
  obtain ⟨u, s', m'⟩ := r
  rw [run_bind hrun]
  have hlsack : ¬ (d = .interfaceLsack sender.oi ∨ False) := by
    rintro (rfl | hfalse)
    · exact hscoped
    · exact hfalse
  obtain ⟨routes, hinstalled⟩ := clear_installLsa hg hd hcalc hlsack hclear ((hquiet.lsdb h.new_lt).trans hlsdb)
  generalize hinstall : (installLsa new : M ρ Unit) s' m' = r at hinstalled
  obtain ⟨u, s'', m''⟩ := r
  rw [run_bind hinstall]
  have hacknowledge : Leads (Clear { g with routes := routes } raw new fun db => db = .interfaceLsack sender.oi ∨ False)
      (Clear { g with routes := routes } raw new fun _ => False) (acknowledgeLsa new (-1) sender : M ρ Unit) :=
    clear_acknowledgeLsa hsender not_false
  exact (hacknowledge s'' m'' hinstalled).fault

omit [RouteCalc ρ] in
theorem lsdbFor_there (hg : x.1.ground.Sound) (hoi : sender.oi < x.1.interfaces.length) {type : UInt16}
    (h : x.1.lsdbFor sender type = some d) : d.There x.1.ground := by
  have hin := lsdbFor_in h hoi fun i hi => by
    have harea := hg.area i.ground (List.mem_map.mpr ⟨i, hi, rfl⟩)
    rwa [State.ground, List.length_map] at harea
  have hscoped := lsdbFor_scoped h
  cases d with
  | interface oi => exact hin.trans_eq (List.length_map _).symm
  | area oa => exact hin.trans_eq (List.length_map _).symm
  | as => trivial
  | _ => exact hscoped.elim

/-- An LSA with a wrong checksum, or of no scope, changes nothing but the heap. -/
theorem receiveLsa_unscoped (hostnum : UInt32) (h : Requesting sender raw.header.key req x)
    (hnone : lsaChecksum raw.header raw.body ≠ raw.header.checksum ∨ x.1.lsdbFor sender raw.header.type = none) :
    (receiveLsa sender hostnum raw x.1 x.2 : Unit × State ρ × Mem).2.1 = x.1 := by
  obtain ⟨s, m⟩ := x
  have hcreated : receiveLsa sender hostnum raw s m =
      (if lsaChecksum raw.header raw.body ≠ raw.header.checksum then pure ()
        else do
          let lsdb ← receiveLsdb sender raw.header.type
          if lsdb.isNone then pure ()
          else do
            modifyInfo m.heap.length fun l => { l with lsdb := lsdb }
            let drop ← isMaxageLsaDrop m.heap.length
            if drop then pure () else receiveFrom5 sender raw m.heap.length lsdb : M ρ Unit)
        s (receiveMem m raw hostnum) := rfl
  rw [hcreated]
  by_cases hsum : lsaChecksum raw.header raw.body = raw.header.checksum
  · rw [if_neg (not_not.mpr hsum), run_bind (receiveLsdb_eq h.inside), hnone.resolve_left (not_not.mpr hsum)]
    rfl
  · rw [if_pos hsum]
    rfl

theorem fault_receiveLsa (hostnum : UInt32) (h : Requesting sender raw.header.key req x)
    (hinstallable : Installable sender hostnum raw x) :
    (receiveLsa sender hostnum raw x.1 x.2 : Unit × State ρ × Mem).2.1.fault = false := by
  by_cases hsum : lsaChecksum raw.header raw.body = raw.header.checksum
  swap
  · rw [receiveLsa_unscoped hostnum h (.inl hsum)]
    exact h.fault
  cases hd : x.1.lsdbFor sender raw.header.type with
  | none =>
      rw [receiveLsa_unscoped hostnum h (.inr hd)]
      exact h.fault
  | some d =>
      obtain ⟨hdropped, hrun⟩ := receiveLsa_run hostnum h hsum hd
      by_cases hdrop : Dropped raw d x
      · rw [hdropped hdrop]
        exact h.fault
      have hoi : sender.oi < x.1.ground.interfaces.length := h.inside.trans_eq (List.length_map _).symm
      have hinstall : Admitted hostnum raw d x → ∀ m', Quiet (x.1, receiveMemFor x.2 raw hostnum d) (x.1, m') →
          ((receiveInstall sender x.2.heap.length : M ρ Unit) x.1 m').2.1.fault = false := by
        intro hadmitted m' hm'
        obtain ⟨hfree, hcalc⟩ := hinstallable hsum d hd hadmitted
        have hlt : x.2.heap.length < (receiveMemFor x.2 raw hostnum d).heap.length := (h.answer hostnum d).new_lt
        have hlsdb : (m'.lsa x.2.heap.length).lsdb = some d := by
          rw [hm'.lsdb hlt]
          show ((receiveMemFor x.2 raw hostnum d).lsa x.2.heap.length).lsdb = _
          rw [receiveMemFor_lsa]
        exact fault_receiveInstall h.sound hoi (lsdbFor_there h.sound h.inside hd) (lsdbFor_scoped hd) hcalc hlsdb
          (h.clear hfree hm')
      rw [hrun hdrop, receiveFrom5_run h hd]
      cases hcopy : copyOf x d raw.header.key with
      | none =>
          unfold Admitted at hinstall
          rw [hcopy] at hinstall
          rw [receiveFound_none]
          exact hinstall (by simp) _ (quiet_ageCurrent x.2.heap.length x.1 _)
      | some old =>
          obtain ⟨m', hm', hquiet, harrived, hnewer, holder⟩ := receiveFound_run hostnum h hd hcopy
          by_cases hnew : NewerThan raw hostnum d x.2 old
          · rw [hnewer hnew]
            by_cases hearly : Early raw hostnum d x.2 old
            · rw [receiveNewer_early sender _ x.1 (harrived.mpr hearly)]
              exact h.fault
            · rw [receiveNewer_run sender _ x.1 fun htrue => hearly (harrived.mp htrue)]
              refine hinstall (fun o ho => ?_) _ (Frame.trans hquiet (quiet_gettime x.1 m'))
              rw [hcopy, Option.mem_def, Option.some.injEq] at ho
              exact ho ▸ ⟨hnew, hearly⟩
          · obtain ⟨v, hv⟩ := holder hnew
            rw [hv, receiveOlder_run (h.answer hostnum d) old v hm']
            exact h.fault

end Reception

/-- A Router-LSA of a router. -/
def routerRaw (advRouter : UInt32) : RawLsa :=
  let header : LsaHeader := ⟨lstypeRouter, 0, advRouter, 0x80000005, 0, 24⟩
  ⟨1, { header with checksum := lsaChecksum header [0, 0, 0, 0x13] }, [0, 0, 0, 0x13]⟩

/-- Router 1 in Loading with router 2, which it has asked for an LSA. -/
def loading (raw : RawLsa) : State Unit × Mem where
  fst := withInterface { (default : Interface) with
    neighborList := [{ Neighbor.create 2 with state := .loading, requestList := [0] }] }
  snd := ⟨[.born (.ofHeader raw.header [] true) 1 ⟨5, 0⟩], fun _ => ⟨5, 0⟩, fun _ => 0⟩

theorem loading_requesting (raw : RawLsa) : Requesting ⟨0, 2⟩ raw.header.key 0 (loading raw) where
  holds := ⟨_, rfl, .inr rfl⟩
  entry := List.find?_cons_of_pos (show ((loading raw).2.key 0 == some raw.header.key) = true from beq_self_eq_true _)
  listed d a ha := by
    cases d with
    | neighbor on list =>
        obtain ⟨oi, routerId⟩ := on
        cases oi with
        | zero =>
            rw [get_of_home rfl] at ha
            have ha : a ∈ Neighbor.list (([{ Neighbor.create 2 with state := .loading, requestList := [0] }].find?
              fun n : Neighbor => n.routerId == routerId).getD default) list := ha
            by_cases hr : routerId = 2
            · subst hr
              cases list with
              | requestList => exact (List.mem_singleton.mp ha).symm ▸ Nat.zero_lt_one
              | _ => exact absurd ha List.not_mem_nil
            · have hne : ¬ ((2 : UInt32) == routerId) = true := fun heq => hr (eq_of_beq heq).symm
              rw [List.find?_cons_of_neg (p := fun n : Neighbor => n.routerId == routerId) hne] at ha
              cases list <;> exact absurd ha List.not_mem_nil
        | succ oi => exact absurd (show a ∈ _ from ha) (by cases list <;> exact List.not_mem_nil)
    | as => exact absurd ha List.not_mem_nil
    | area oa => cases oa <;> exact absurd ha List.not_mem_nil
    | areaSelf oa => cases oa <;> exact absurd ha List.not_mem_nil
    | interface oi => cases oi <;> exact absurd ha List.not_mem_nil
    | interfaceSelf oi => cases oi <;> exact absurd ha List.not_mem_nil
    | interfaceLsupdate oi => cases oi <;> exact absurd ha List.not_mem_nil
    | interfaceLsack oi => cases oi <;> exact absurd ha List.not_mem_nil
  nodup := List.nodup_cons.mpr ⟨List.not_mem_nil, List.nodup_nil⟩
  wired := by
    refine ⟨Nat.zero_lt_one, fun oa a ha => ?_⟩
    cases oa with
    | zero =>
        obtain rfl := Option.some.inj ha
        exact iff_of_true List.mem_cons_self rfl
    | succ oa => exact absurd ha (by simp [loading, withInterface])
  sound := by
    refine ⟨fun oa hoa oi hoi => ?_, ?_, fun i hi => ?_, fun i hi => ?_, fun i hi => ?_⟩
    · obtain rfl := List.mem_singleton.mp hoa
      obtain rfl := List.mem_singleton.mp hoi
      exact Nat.zero_lt_one
    · exact List.nodup_singleton 0
    all_goals obtain rfl := List.mem_singleton.mp hi
    · exact Nat.zero_lt_one
    · exact Nat.zero_lt_one
    · exact List.nodup_singleton 2
  fault := rfl

theorem loading_le (advRouter : UInt32) (i j : Nat) : let x := loading (routerRaw advRouter)
    compareAt ((routerRaw advRouter).born (x.2.clock 0)) (x.2.lsa 0) (x.2.clock i) (x.2.clock j) ≤ 0 := by
  let header := (routerRaw advRouter).header
  show (if signed header.seqnum < signed header.seqnum then -1 else if signed header.seqnum < signed header.seqnum then 1
    else if header.checksum < header.checksum then -1 else if header.checksum < header.checksum then 0
    else compareAge 1 1 : Int) ≤ 0
  have hsum : ¬ header.checksum < header.checksum := Nat.lt_irrefl _
  rw [if_neg (lt_irrefl _), if_neg (lt_irrefl _), if_neg hsum, if_neg hsum]
  decide

end Harry.Sibling
