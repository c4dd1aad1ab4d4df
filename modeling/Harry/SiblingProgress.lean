import Harry.SiblingAnswers
import Harry.SiblingFiled

/-! How `ospf6_lsupdate_send_neighbor` gets its lists out. A run puts what fits of `lsupdate_list` in one packet, and
behind it what fits of `retrans_list`; where something is left on `lsupdate_list` it runs again at once. An LSA that
is longer than a packet may be is never taken off the list, and a packet with less than 24 bytes of LSAs fails the
assertion of `rfpbuf_at_assert`. Where the buffer of a packet has grown, what fits of the rest depends on where it
lies, which is different in each run. -/

namespace Harry.Sibling

open Harry.Base Harry.Rfp Prog

variable {ρ : Type}

/-- The packet with the LSAs `g` off `lsupdate_list`, of age zero, and the LSAs `r` of `retrans_list`, each with the
age it is sent with. -/
def Carries (info : Addr → LsaInfo) (g : List Addr) (r : List (Addr × UInt16)) (o : Output) : Prop :=
  ∃ xid header, header.length = 16 ∧ o.msg = .routeflowAllocXid .forwardOspf6 xid (header ++
    (htonl (UInt32.ofNat (g.length + r.length)) ++ g.flatMap (fun a => (info a).bytes 0) ++
      r.flatMap fun p => (info p.1).bytes p.2))

/-- The LSAs but for what the clock enters. -/
def Mem.infoAt (m : Mem) (a : Addr) : LsaInfo := (m.lsa a).toLsaInfo

/-- The length of an LSA. -/
def Mem.lsaSize (m : Mem) (a : Addr) : Nat := (m.infoAt a).header.length.toNat

section Fitting

variable {full : Obuf → Nat → Bool} {b : Obuf} {length : Addr → Nat} {as : List Addr}

theorem fitting_append_drop : (fitting full length b as).1 ++
    as.drop (fitting full length b as).1.length = as := by
  induction as generalizing b with
  | nil => rfl
  | cons a as ih =>
      unfold fitting
      split
      · rfl
      · exact congrArg (List.cons a) ih

theorem fitting_eq_nil (h : ∀ a ∈ as.head?, full b (length a) = true) : fitting full length b as = ([], b) := by
  cases as with
  | nil => rfl
  | cons a as =>
      unfold fitting
      rw [if_pos (h a rfl)]

theorem le_fitting_size : b.size ≤ (fitting full length b as).2.size := by
  induction as generalizing b with
  | nil => exact Nat.le_refl _
  | cons a as ih =>
      unfold fitting
      split
      · exact Nat.le_refl _
      · exact Nat.le_trans (Nat.le_add_right _ _) (ih (b := b.put (length a)))

/-- Where the first LSA fits. -/
theorem fitting_head {a : Addr} (ha : as.head? = some a) (hfit : full b (length a) = false) :
    (fitting full length b as).1 ≠ [] ∧ b.size + length a ≤ (fitting full length b as).2.size := by
  cases as with
  | nil => cases ha
  | cons c as =>
      cases ha
      unfold fitting
      rw [if_neg (Bool.not_eq_true _ ▸ hfit)]
      exact ⟨List.cons_ne_nil _ _, le_fitting_size (b := b.put (length a))⟩

end Fitting

section Run

variable {on : NbrRef} {n : Neighbor} {i : Interface} {s : State ρ} {m m' : Mem}

/-- The neighbor is one of the interface, which has an area and a controller to send to. -/
structure Ready (on : NbrRef) (n : Neighbor) (i : Interface) (s : State ρ) : Prop where
  fault : s.fault = false
  port : ∃ ns, s.interfaces[on.oi]? = some { i with neighborList := ns } ∧ ns.find? (·.routerId == on.routerId) = some n
  area : ∃ area, s.areaList[i.area]? = some area
  client : ∃ c, s.ctrlClients[i.ctrlClient]? = some c

theorem Ready.holds (h : Ready on n i s) : s.Holds on n := by
  obtain ⟨ns, hi, hn⟩ := h.port
  show s.interfaces[on.oi]?.bind _ = some n
  rw [hi]
  exact hn

/-- What a change of the neighbor leaves as it is. -/
theorem Ready.modify (h : Ready on n i s) {f : Neighbor → Neighbor} (hid : ∀ n, (f n).routerId = n.routerId)
    (m : Mem) : ∃ q, (modifyNeighbor on f : M ρ Unit) s m = ((), q, m) ∧ Ready on (f n) i q ∧ q.sent = s.sent ∧
      q.events = s.events := by
  obtain ⟨ns, hi, hn⟩ := h.port
  let ns' := ns.map fun n : Neighbor => if n.routerId == on.routerId then f n else n
  have hport : ((modifyNeighbor on f : M ρ Unit) s m).2.1.interfaces[on.oi]? = some { i with neighborList := ns' } := by
    show (s.interfaces.modify on.oi _)[on.oi]? = _
    rw [List.getElem?_modify_eq, hi]
    rfl
  have hfind : ns'.find? (fun n : Neighbor => n.routerId == on.routerId) = some (f n) :=
    (find?_routerId_map hid ns on.routerId).trans (congrArg (Option.map f) hn)
  exact ⟨_, rfl, ⟨h.fault, ⟨ns', hport, hfind⟩, h.area, h.client⟩, rfl, rfl⟩

/-- A message goes out. -/
theorem Ready.send (h : Ready on n i s) (i' : Interface) (harea : i'.area = i.area)
    (hclient : i'.ctrlClient = i.ctrlClient) (type : UInt8) (body : List UInt8) (m : Mem) :
    ∃ q o, (msgSend i' type body : M ρ Unit) s m = ((), q, m) ∧ Ready on n i q ∧ q.sent = s.sent ++ [o] ∧
      q.events = s.events ∧ ∃ xid header, header.length = 16 ∧
        o.msg = .routeflowAllocXid .forwardOspf6 xid (header ++ body) := by
  obtain ⟨area, ha⟩ := h.area
  obtain ⟨c, hc⟩ := h.client
  have hobserve : (Prog.observe : M ρ (State ρ)) s m = (s, s, m) := rfl
  have hemit : ∀ o, (emit o : M ρ Unit) s m = ((), { s with sent := s.sent ++ [o] }, m) := fun o => by
    show ((), (if s.fault = true then s else _), m) = _
    rw [h.fault]
    rfl
  unfold msgSend
  rw [Prog.run_bind hobserve, harea, Prog.run_bind (theArea_run ha m)]
  unfold sendNext
  rw [Prog.run_bind hobserve, hclient, hc]
  let o : Output := ⟨i.ctrlClient, .routeflowAllocXid .forwardOspf6 c.currentXid
    (ospf6Header type (16 + body.length) s.routerId area.areaId ++ body)⟩
  let q : State ρ := { s with
    sent := s.sent ++ [o]
    ctrlClients := s.ctrlClients.modify i.ctrlClient fun c => { c with currentXid := c.currentXid + 1 } }
  have hrun : (emit o >>= fun _ => Prog.modify fun s => { s with
      ctrlClients := s.ctrlClients.modify i.ctrlClient fun c => { c with currentXid := c.currentXid + 1 } } :
        M ρ Unit) s m = ((), q, m) := by
    rw [Prog.run_bind (hemit o)]
    rfl
  have hthere : ∃ c, q.ctrlClients[i.ctrlClient]? = some c := by
    show ∃ c, (s.ctrlClients.modify i.ctrlClient _)[i.ctrlClient]? = some c
    rw [List.getElem?_modify_eq, hc]
    exact ⟨_, rfl⟩
  exact ⟨q, o, hrun, ⟨h.fault, h.port, h.area, hthere⟩, rfl, rfl, c.currentXid, _, rfl, rfl⟩

/-- The LSAs are what they were, but for ages, and so are the placements of the buffers. -/
structure InfosKept (m m' : Mem) : Prop where
  infoAt : m'.infoAt = m.infoAt
  moves : m'.moves = m.moves

theorem InfosKept.refl (m : Mem) : InfosKept m m := ⟨rfl, rfl⟩

theorem InfosKept.trans {m'' : Mem} (h : InfosKept m m') (h' : InfosKept m' m'') : InfosKept m m'' :=
  ⟨h'.infoAt.trans h.infoAt, h'.moves.trans h.moves⟩

theorem InfosKept.lsaSize (h : InfosKept m m') : m'.lsaSize = m.lsaSize := by
  funext a
  exact congrArg (fun info : Addr → LsaInfo => (info a).header.length.toNat) h.infoAt

theorem infosKept_update (m : Mem) (a : Addr) {f : Lsa → Lsa} (hf : ∀ l, (f l).toLsaInfo = l.toLsaInfo) :
    InfosKept m (m.update a f) := by
  refine ⟨?_, rfl⟩
  funext b
  show ((m.update a f).lsa b).toLsaInfo = (m.lsa b).toLsaInfo
  rw [lsa_update]
  split
  · exact hf _
  · rfl

theorem infosKept_refresh (m : Mem) (a : Addr) : InfosKept m (m.refresh a) := by
  refine ⟨?_, rfl⟩
  funext b
  exact info_refresh m a b

/-- The neighbor with `as` left on `lsupdate_list`; its state and `retrans_list` are as they were. -/
structure LeftWith (n : Neighbor) (as : List Addr) (n' : Neighbor) : Prop where
  state : n'.state = n.state
  retrans : n'.retransList = n.retransList
  list : n'.lsupdateList = as

/-- The loop over `lsupdate_list` takes what fits off the list. -/
theorem lsupdateOnce_run {as : List Addr} (b : Obuf) (h : Ready on n i s) (has : n.lsupdateList = as)
    (m : Mem) : ∃ n' q m', (lsupdateOnce on i.ifmtu b as : M ρ Part) s m =
        (⟨(fitting (fullSigned i.ifmtu m.moves) m.lsaSize b as).1.flatMap (fun a => (m.infoAt a).bytes 0),
          (fitting (fullSigned i.ifmtu m.moves) m.lsaSize b as).2,
          (fitting (fullSigned i.ifmtu m.moves) m.lsaSize b as).1.length⟩, q, m') ∧
      Ready on n' i q ∧
      LeftWith n (as.drop (fitting (fullSigned i.ifmtu m.moves) m.lsaSize b as).1.length) n' ∧
      InfosKept m m' ∧ q.sent = s.sent ∧ q.events = s.events := by
  induction as generalizing b n s m with
  | nil => exact ⟨n, s, m, rfl, h, ⟨rfl, rfl, has⟩, .refl m, rfl, rfl⟩
  | cons a as ih =>
      unfold lsupdateOnce fitting
      rw [Prog.run_bind (info_run a s m)]
      show ∃ n' q m', (if fullSigned i.ifmtu m.moves b (m.lsaSize a) = true then _ else _ : M ρ Part) s m = _ ∧ _
      split
      · exact ⟨n, s, m, rfl, h, ⟨rfl, rfl, has⟩, .refl m, rfl, rfl⟩
      · have hclear : InfosKept m (m.update a fun l => { l with age := 0 }) := infosKept_update m a fun _ => rfl
        have hget : (Lsdb.neighbor on .lsupdateList).get s = a :: as := (get_neighbor h.holds .lsupdateList).trans has
        obtain ⟨q, hput, hq, hsent, hevents⟩ := h.modify (f := fun n => n.setList as .lsupdateList) (fun _ => rfl)
          (m.update a fun l => { l with age := 0 })
        obtain ⟨n', q', m', hrun, hready, hleft, hinfos, hsent', hevents'⟩ :=
          ih (b.put (m.lsaSize a)) hq rfl (m.update a fun l => { l with age := 0 })
        have hremove : (lsdbRemove a (.neighbor on .lsupdateList) : M ρ Unit) s
            (m.update a fun l => { l with age := 0 }) = ((), q, m.update a fun l => { l with age := 0 }) := by
          show ((assert (decide (a ∈ (Lsdb.neighbor on .lsupdateList).get s)) : M ρ Unit) >>= fun _ =>
            (Lsdb.neighbor on .lsupdateList).put (((Lsdb.neighbor on .lsupdateList).get s).erase a) >>= fun _ =>
              pure ()) s _ = _
          rw [hget, decide_eq_true List.mem_cons_self, List.erase_cons_head]
          exact hput
        have hclearRun : (clearAge a : M ρ Unit) s m = ((), s, m.update a fun l => { l with age := 0 }) := rfl
        rw [Prog.run_bind hclearRun, Prog.run_bind hremove]
        rw [hclear.lsaSize, hclear.infoAt, hclear.moves] at hrun
        rw [hclear.lsaSize, hclear.moves] at hleft
        refine ⟨n', q', m', ?_, hready, ⟨hleft.state, hleft.retrans, hleft.list⟩, hclear.trans hinfos,
          hsent'.trans hsent, hevents'.trans hevents⟩
        exact Prog.run_bind (k := fun rest : Part => (pure (rest.cons ((m.infoAt a).bytes 0)) : M ρ Part)) hrun

/-- The loop over `retrans_list` sends what fits, and leaves it on the list. -/
theorem lsupdateRetrans_run (i : Interface) (as : List Addr) (b : Obuf) (s : State ρ) (m : Mem) :
    ∃ (r : List (Addr × UInt16)) (m' : Mem), (lsupdateRetrans i.ifmtu i.transdelay b as : M ρ Part) s m =
        (⟨r.flatMap fun p => (m.infoAt p.1).bytes p.2, (fitting (fullSigned i.ifmtu m.moves) m.lsaSize b as).2,
          r.length⟩, s, m') ∧
      r.map Prod.fst = (fitting (fullSigned i.ifmtu m.moves) m.lsaSize b as).1 ∧ InfosKept m m' := by
  induction as generalizing b m with
  | nil => exact ⟨[], m, rfl, rfl, .refl m⟩
  | cons a as ih =>
      unfold lsupdateRetrans fitting
      rw [Prog.run_bind (info_run a s m)]
      show ∃ r m', (if fullSigned i.ifmtu m.moves b (m.lsaSize a) = true then _ else _ : M ρ Part) s m = _ ∧ _
      split
      · exact ⟨[], m, rfl, rfl, .refl m⟩
      · have hage : ∃ age m₁, (ageUpdateToSend a i.transdelay : M ρ UInt16) s m = (age, s, m₁) ∧ InfosKept m m₁ :=
          ⟨_, _, rfl, (infosKept_refresh m a).trans (infosKept_update _ a fun _ => rfl)⟩
        obtain ⟨age, m₁, hageRun, hkept⟩ := hage
        obtain ⟨r, m', hrun, hr, hinfos⟩ := ih (b.put (m.lsaSize a)) m₁
        rw [hkept.lsaSize, hkept.moves] at hr hrun
        rw [hkept.infoAt] at hrun
        rw [Prog.run_bind hageRun]
        refine ⟨(a, age) :: r, m', ?_, ?_, hkept.trans hinfos⟩
        · exact Prog.run_bind (k := fun rest : Part => (pure (rest.cons ((m.infoAt a).bytes age)) : M ρ Part)) hrun
        · rw [List.map_cons, hr]

/-- Whether a run ends before it makes a packet. -/
def Neighbor.Idle (n : Neighbor) : Prop := n.state < .exchange ∨ (n.lsupdateList = [] ∧ n.retransList = [])

/-- What fits of `lsupdate_list` and what fits of `retrans_list` behind it. -/
def Neighbor.once (full : Obuf → Nat → Bool) (length : Addr → Nat) (n : Neighbor) : List Addr :=
  (fitting full length .ofLsupdate n.lsupdateList).1

def Neighbor.again (full : Obuf → Nat → Bool) (length : Addr → Nat) (n : Neighbor) : List Addr :=
  (fitting full length (fitting full length .ofLsupdate n.lsupdateList).2 n.retransList).1

/-- The obuf they are in. -/
def Neighbor.packed (full : Obuf → Nat → Bool) (length : Addr → Nat) (n : Neighbor) : Obuf :=
  (fitting full length (fitting full length .ofLsupdate n.lsupdateList).2 n.retransList).2

/-- The event for the next run. -/
theorem lsupdateAgain_run (h : Ready on n i s) (m : Mem) : ∃ n' q, (lsupdateAgain on : M ρ Unit) s m = ((), q, m) ∧
    Ready on n' i q ∧ LeftWith n n.lsupdateList n' ∧ q.sent = s.sent ∧
      q.events = s.events ++ if n.lsupdateList = [] then [] else [.lsupdateSendNeighbor on] := by
  let f : Neighbor → Neighbor := fun n => { n with threadSendLsupdate := some (.lsupdateSendNeighbor on) }
  unfold lsupdateAgain
  rw [Prog.run_bind (theNeighbor_run h.holds m)]
  by_cases hlist : n.lsupdateList = []
  · rw [if_neg (not_not.mpr hlist), if_pos hlist]
    by_cases hretrans : n.retransList = []
    · rw [if_neg (not_not.mpr hretrans)]
      exact ⟨n, s, rfl, h, ⟨rfl, rfl, rfl⟩, rfl, (List.append_nil _).symm⟩
    · rw [if_pos hretrans]
      have htimer : Ready on n i { s with timers := s.timers ++ [.lsupdateSendNeighbor on] } :=
        ⟨h.fault, h.port, h.area, h.client⟩
      obtain ⟨q, hmod, hq, hsent, hevents⟩ := htimer.modify (f := f) (fun _ => rfl) m
      exact ⟨f n, q, hmod, hq, ⟨rfl, rfl, rfl⟩, hsent, hevents.trans (List.append_nil _).symm⟩
  · rw [if_pos hlist, if_neg hlist]
    have hevent : Ready on n i { s with events := s.events ++ [.lsupdateSendNeighbor on] } :=
      ⟨h.fault, h.port, h.area, h.client⟩
    obtain ⟨q, hmod, hq, hsent, hevents⟩ := hevent.modify (f := f) (fun _ => rfl) m
    exact ⟨f n, q, hmod, hq, ⟨rfl, rfl, rfl⟩, hsent, hevents⟩


/-- All that a run can do to the neighbor `n` of the interface `i`: nothing where it is idle; else an assertion fails
on a packet that is too short, or one packet goes out, and the event for the next run is there where something is left
on `lsupdate_list`. -/
inductive RunOf (on : NbrRef) (n : Neighbor) (i : Interface) (s : State ρ) (m : Mem) (n' : Neighbor) (q : State ρ)
    (m' : Mem) : Prop
  | idle (hidle : n.Idle) (ready : Ready on n' i q) (left : LeftWith n n.lsupdateList n') (infos : InfosKept m m')
      (sent : q.sent = s.sent) (events : q.events = s.events)
  | aborts (hbusy : ¬ n.Idle) (short : (n.packed (fullSigned i.ifmtu m.moves) m.lsaSize).size < 52)
      (fault : q.fault = true)
  | sends (hbusy : ¬ n.Idle) (whole : 52 ≤ (n.packed (fullSigned i.ifmtu m.moves) m.lsaSize).size)
      (ready : Ready on n' i q) (infos : InfosKept m m')
      (left : LeftWith n (n.lsupdateList.drop (n.once (fullSigned i.ifmtu m.moves) m.lsaSize).length) n')
      (r : List (Addr × UInt16)) (o : Output)
      (carries : Carries m.infoAt (n.once (fullSigned i.ifmtu m.moves) m.lsaSize) r o)
      (again : r.map Prod.fst = n.again (fullSigned i.ifmtu m.moves) m.lsaSize) (sent : q.sent = s.sent ++ [o])
      (events : q.events = s.events ++ if n'.lsupdateList = [] then [] else [.lsupdateSendNeighbor on])

/-- The rest of a run behind an assertion that has failed. -/
theorem faulted_rest (i : Interface) (type : UInt8) (body : List UInt8) (b : Obuf) (h : s.fault = true) :
    ((do
      rfpbufAtAssert b 8 24
      msgSend i type body
      lsupdateAgain on : M ρ Unit) s m).2.1.fault = true := by
  have hagain : Within (Keeping Faulted) (lsupdateAgain on : M ρ Unit) := by
    refine .bind (plain_faulted.theNeighbor on) fun n => .ite ?_ (.ite ?_ (.pure _))
    · exact .bind (plain_faulted.event trivial) fun _ => plain_faulted.neighbor on fun _ => rfl
    · exact .bind (plain_faulted.timer trivial) fun _ => plain_faulted.neighbor on fun _ => rfl
  exact (Within.bind (plain_faulted.rfpbufAtAssert b 8 24) fun _ =>
    .bind (plain_faulted.msgSend i type body) fun _ => hagain) s m h

theorem lsupdateSendNeighbor_run (h : Ready on n i s) (m : Mem) : ∃ n' q m',
    (lsupdateSendNeighbor on : M ρ Unit) s m = ((), q, m') ∧ RunOf on n i s m n' q m' := by
  obtain ⟨ns, hi, hn⟩ := h.port
  obtain ⟨q₀, hmod, hq₀, hsent₀, hevents₀⟩ := h.modify (f := fun n => { n with threadSendLsupdate := none })
    (fun _ => rfl) m
  unfold lsupdateSendNeighbor
  rw [Prog.run_bind (theNeighbor_run h.holds m), Prog.run_bind (theInterface_run hi m), Prog.run_bind hmod]
  by_cases hstate : n.state < .exchange
  · rw [if_pos hstate]
    exact ⟨_, q₀, m, rfl, .idle (.inl hstate) hq₀ ⟨rfl, rfl, rfl⟩ (.refl m) hsent₀ hevents₀⟩
  rw [if_neg hstate]
  by_cases hempty : n.lsupdateList = [] ∧ n.retransList = []
  · rw [if_pos hempty]
    exact ⟨_, q₀, m, rfl, .idle (.inr hempty) hq₀ ⟨rfl, rfl, rfl⟩ (.refl m) hsent₀ hevents₀⟩
  rw [if_neg hempty]
  have hbusy : ¬ n.Idle := not_or.mpr ⟨hstate, hempty⟩
  obtain ⟨n₁, q₁, m₁, honce, hq₁, hleft, hinfos₁, hsent₁, hevents₁⟩ := lsupdateOnce_run .ofLsupdate hq₀ rfl m
  obtain ⟨r, m₂, hretrans, hr, hinfos₂⟩ := lsupdateRetrans_run i n.retransList
    (fitting (fullSigned i.ifmtu m.moves) m.lsaSize .ofLsupdate n.lsupdateList).2 q₁ m₁
  rw [hinfos₁.lsaSize, hinfos₁.moves] at hr hretrans
  rw [hinfos₁.infoAt] at hretrans
  rw [Prog.run_bind honce, Prog.run_bind hretrans]
  by_cases hwhole : 52 ≤ (n.packed (fullSigned i.ifmtu m.moves) m.lsaSize).size
  · have hassert : ∀ k l : Nat, k + l ≤ 52 → (rfpbufAtAssert (n.packed (fullSigned i.ifmtu m.moves) m.lsaSize) k l :
        M ρ Unit) q₁ m₂ = ((), q₁, m₂) := fun k l hle => by
      unfold rfpbufAtAssert assert
      rw [if_pos (decide_eq_true (Nat.le_trans hle hwhole))]
      rfl
    obtain ⟨q₂, o, hsend, hq₂, hsent₂, hevents₂, hcarries⟩ := hq₁.send { i with neighborList := ns } rfl
      rfl messageTypeLsupdate (htonl (UInt32.ofNat
        ((n.once (fullSigned i.ifmtu m.moves) m.lsaSize).length + r.length)) ++
        (n.once (fullSigned i.ifmtu m.moves) m.lsaSize).flatMap (fun a => (m.infoAt a).bytes 0) ++
          r.flatMap fun p => (m.infoAt p.1).bytes p.2) m₂
    obtain ⟨n₃, q₃, hagain, hq₃, hleft₃, hsent₃, hevents₃⟩ := lsupdateAgain_run hq₂ m₂
    refine ⟨n₃, q₃, m₂, ?_, .sends hbusy hwhole hq₃ (hinfos₁.trans hinfos₂) ?_ r o hcarries hr ?_ ?_⟩
    · exact (Prog.run_bind (hassert 24 28 (Nat.le_refl _))).trans <|
        (Prog.run_bind (hassert 8 24 (by decide))).trans <| (Prog.run_bind hsend).trans hagain
    · exact ⟨hleft₃.state.trans hleft.state, hleft₃.retrans.trans hleft.retrans, hleft₃.list.trans hleft.list⟩
    · rw [hsent₃, hsent₂, hsent₁, hsent₀]
    · rw [hevents₃, hevents₂, hevents₁, hevents₀, hleft₃.list]
  · have hassert : (rfpbufAtAssert (n.packed (fullSigned i.ifmtu m.moves) m.lsaSize) 24 28 : M ρ Unit) q₁ m₂ =
        ((), { q₁ with fault := true }, m₂) := by
      unfold rfpbufAtAssert assert
      rw [if_neg (by simpa using hwhole)]
      rfl
    exact ⟨n, _, _, (Prog.run_bind hassert).trans rfl, .aborts hbusy (Nat.not_le.mp hwhole) (faulted_rest _ _ _ _ rfl)⟩

end Run

section Room

variable {n : Neighbor} {ifmtu : UInt32} {moves : Nat → Int} {length : Addr → Nat}

/-- As long as the buffer of an LSUpdate has not grown, the MTU check is right. -/
theorem fullSigned_put {k : Nat} (hk : k ≤ 44) (size : Nat) :
    fullSigned ifmtu moves (Obuf.ofLsupdate.put k) size = decide (ifmtu.toNat < 20 + k + size) := by
  have hput : Obuf.ofLsupdate.put k = ⟨28 + k, 72⟩ := by
    unfold Obuf.put
    rw [show Obuf.ofLsupdate = ⟨28, 72⟩ from rfl]
    simp only [Obuf.mk.injEq, true_and, ite_eq_right_iff]
    omega
  have hstill : (Obuf.ofLsupdate.put k).offset moves = 20 + k := by
    unfold Obuf.offset
    rw [hput, if_pos (show (72 : Nat) = Obuf.ofHeader.allocated from rfl)]
    show ((28 + k : Nat) : Int) - 8 + 0 = 20 + k
    omega
  unfold fullSigned
  rw [hstill, decide_eq_decide]
  omega

theorem fullSigned_ofLsupdate (size : Nat) :
    fullSigned ifmtu moves .ofLsupdate size = decide (ifmtu.toNat < 20 + size) :=
  fullSigned_put (k := 0) (by decide) size

/-- The LSAs that a packet may have in its second place. -/
def Neighbor.seconds (n : Neighbor) : List Addr :=
  match n.lsupdateList with
  | [] => n.retransList.tail.take 1
  | _ :: as => as.take 1 ++ n.retransList.take 1

/-- The first LSA of the next packet fits, and where it is shorter than the assertion demands, a second one does. -/
def Neighbor.Room (ifmtu : Nat) (length : Addr → Nat) (n : Neighbor) : Prop :=
  ∀ a ∈ (n.lsupdateList ++ n.retransList).head?, 20 + length a ≤ ifmtu ∧
    (24 ≤ length a ∨ ∃ b ∈ n.seconds, 20 + length a + length b ≤ ifmtu)

/-- What fits of a list where the first LSA does. -/
theorem fitting_first {a : Addr} (as : List Addr) (ha : 20 + length a ≤ ifmtu.toNat) :
    fitting (fullSigned ifmtu moves) length .ofLsupdate (a :: as) =
      (a :: (fitting (fullSigned ifmtu moves) length (Obuf.ofLsupdate.put (length a)) as).1,
        (fitting (fullSigned ifmtu moves) length (Obuf.ofLsupdate.put (length a)) as).2) := by
  have hfit : ¬ fullSigned ifmtu moves .ofLsupdate (length a) = true := by
    rw [fullSigned_ofLsupdate]
    simpa using ha
  show (if fullSigned ifmtu moves .ofLsupdate (length a) = true then _ else _) = _
  rw [if_neg hfit]

/-- Behind an LSA that is too short for the assertion, a second one that fits makes up for it. -/
theorem second_size {a b : Addr} (as rs : List Addr) (hle : 20 ≤ length a) (hshort : length a < 24)
    (hlen : ∀ c, c ∈ as ∨ c ∈ rs → 20 ≤ length c) (hb : b ∈ as.take 1 ++ rs.take 1)
    (hfit : 20 + length a + length b ≤ ifmtu.toNat) :
    52 ≤ (fitting (fullSigned ifmtu moves) length
      (fitting (fullSigned ifmtu moves) length (Obuf.ofLsupdate.put (length a)) as).2 rs).2.size := by
  have hput : (Obuf.ofLsupdate.put (length a)).size = 28 + length a := rfl
  have hgrown : ∀ {c : Addr} {cs : List Addr}, cs.head? = some c → 20 ≤ length c →
      fullSigned ifmtu moves (Obuf.ofLsupdate.put (length a)) (length c) = false →
        52 ≤ (fitting (fullSigned ifmtu moves) length (Obuf.ofLsupdate.put (length a)) cs).2.size := by
    intro c cs hc hlec hfull
    have hsize : (Obuf.ofLsupdate.put (length a)).size + length c ≤ _ := (fitting_head hc hfull).2
    omega
  have hfitb : fullSigned ifmtu moves (Obuf.ofLsupdate.put (length a)) (length b) = false := by
    rw [fullSigned_put (by omega)]
    simpa using hfit
  by_cases hfirst : ∃ c, as.head? = some c ∧ fullSigned ifmtu moves (Obuf.ofLsupdate.put (length a)) (length c) = false
  · obtain ⟨c, hc, hfull⟩ := hfirst
    exact Nat.le_trans (hgrown hc (hlen c (.inl (List.mem_of_mem_head? hc))) hfull) le_fitting_size
  · have hnone : ∀ c ∈ as.head?, fullSigned ifmtu moves (Obuf.ofLsupdate.put (length a)) (length c) = true := fun c hc =>
      Bool.not_eq_false _ ▸ fun hfull => hfirst ⟨c, hc, hfull⟩
    rw [fitting_eq_nil hnone]
    rcases List.mem_append.mp hb with hb | hb
    · have hhead : as.head? = some b := by
        cases as with
        | nil => cases hb
        | cons c as => exact congrArg some (List.mem_singleton.mp hb).symm
      exact absurd ⟨b, hhead, hfitb⟩ hfirst
    · have hhead : rs.head? = some b := by
        cases rs with
        | nil => cases hb
        | cons c rs => exact congrArg some (List.mem_singleton.mp hb).symm
      exact hgrown hhead (hlen b (.inr (List.mem_of_mem_take hb))) hfitb

/-- Nothing else makes up for it. -/
theorem second_short {a : Addr} (as rs : List Addr) (hshort : length a < 24)
    (hnone : ∀ b ∈ as.take 1 ++ rs.take 1, ifmtu.toNat < 20 + length a + length b) :
    (fitting (fullSigned ifmtu moves) length
      (fitting (fullSigned ifmtu moves) length (Obuf.ofLsupdate.put (length a)) as).2 rs).2.size < 52 := by
  have hfull : ∀ {cs : List Addr}, (∀ c ∈ cs.head?, c ∈ as.take 1 ++ rs.take 1) → ∀ c ∈ cs.head?,
      fullSigned ifmtu moves (Obuf.ofLsupdate.put (length a)) (length c) = true := by
    intro cs hcs c hc
    rw [fullSigned_put (by omega)]
    exact decide_eq_true (hnone c (hcs c hc))
  have hhead : ∀ {cs : List Addr} {c : Addr}, c ∈ cs.head? → c ∈ cs.take 1 := by
    intro cs c hc
    cases cs with
    | nil => cases hc
    | cons d cs => exact List.mem_singleton.mpr (Option.some.inj hc).symm
  rw [fitting_eq_nil (hfull fun c hc => List.mem_append_left _ (hhead hc)),
    fitting_eq_nil (hfull fun c hc => List.mem_append_right _ (hhead hc))]
  show 28 + length a < 52
  omega

/-- A packet that is made has an LSA in it, where one has room; and the assertion holds. -/
theorem Neighbor.Room.packed (moves : Nat → Int) (hroom : n.Room ifmtu.toNat length)
    (hne : ¬ (n.lsupdateList = [] ∧ n.retransList = []))
    (hlen : ∀ a, a ∈ n.lsupdateList ∨ a ∈ n.retransList → 20 ≤ length a) :
    52 ≤ (n.packed (fullSigned ifmtu moves) length).size ∧
      (n.lsupdateList ≠ [] → n.once (fullSigned ifmtu moves) length ≠ []) ∧
        (n.lsupdateList = [] → n.again (fullSigned ifmtu moves) length ≠ []) := by
  unfold Neighbor.packed Neighbor.once Neighbor.again
  unfold Neighbor.Room Neighbor.seconds at hroom
  have hlarge : ∀ {a : Addr} {as : List Addr}, 24 ≤ length a →
      52 ≤ (fitting (fullSigned ifmtu moves) length (Obuf.ofLsupdate.put (length a)) as).2.size := fun {a as} hle =>
    Nat.le_trans (show 52 ≤ 28 + length a by omega) (le_fitting_size (b := Obuf.ofLsupdate.put (length a)))
  cases hlist : n.lsupdateList with
  | nil =>
      cases hretrans : n.retransList with
      | nil => exact absurd ⟨hlist, hretrans⟩ hne
      | cons a rs =>
          rw [hlist, hretrans] at hroom hlen
          obtain ⟨hfit, hsecond⟩ := hroom a rfl
          rw [show fitting (fullSigned ifmtu moves) length .ofLsupdate [] = ([], .ofLsupdate) from rfl,
            fitting_first rs hfit]
          refine ⟨?_, fun h => absurd rfl h, fun _ => List.cons_ne_nil _ _⟩
          by_cases hle : 24 ≤ length a
          · exact hlarge hle
          obtain ⟨b, hb, hfitb⟩ := hsecond.resolve_left hle
          exact second_size rs [] (hlen a (.inr List.mem_cons_self)) (Nat.not_le.mp hle)
            (fun c hc => hc.elim (fun hc => hlen c (.inr (List.mem_cons_of_mem a hc))) fun hc =>
              absurd hc List.not_mem_nil)
            (List.mem_append_left _ hb) hfitb
  | cons a as =>
      rw [hlist] at hroom hlen
      obtain ⟨hfit, hsecond⟩ := hroom a rfl
      rw [fitting_first as hfit]
      refine ⟨?_, fun _ => List.cons_ne_nil _ _, fun h => absurd h (List.cons_ne_nil _ _)⟩
      by_cases hle : 24 ≤ length a
      · exact Nat.le_trans (hlarge hle) le_fitting_size
      obtain ⟨b, hb, hfitb⟩ := hsecond.resolve_left hle
      exact second_size as n.retransList (hlen a (.inl List.mem_cons_self)) (Nat.not_le.mp hle)
        (fun c hc => hlen c (hc.imp_left (List.mem_cons_of_mem a))) hb hfitb

/-- Where there is none, the packet is too short or the first LSA of `lsupdate_list` is not in it. -/
theorem stuck_of_not_room (moves : Nat → Int) (hroom : ¬ n.Room ifmtu.toNat length) :
    (n.packed (fullSigned ifmtu moves) length).size < 52 ∨
      ∃ a, n.lsupdateList.head? = some a ∧ ifmtu.toNat < 20 + length a := by
  unfold Neighbor.Room Neighbor.seconds at hroom
  obtain ⟨a, hroom⟩ := not_forall.mp hroom
  obtain ⟨ha, hroom⟩ := Classical.not_imp.mp hroom
  -- where the first one fits, it is too short, and no second one does
  have hshort : 20 + length a ≤ ifmtu.toNat → length a < 24 := fun hfit =>
    Nat.not_le.mp fun hle => hroom ⟨hfit, .inl hle⟩
  unfold Neighbor.packed
  cases hlist : n.lsupdateList with
  | nil =>
      rw [hlist] at ha hroom
      cases hretrans : n.retransList with
      | nil =>
          rw [hretrans] at ha
          cases ha
      | cons c rs =>
          rw [hretrans] at ha hroom
          obtain rfl : c = a := Option.some.inj ha
          refine .inl ?_
          rw [show fitting (fullSigned ifmtu moves) length .ofLsupdate [] = ([], .ofLsupdate) from rfl]
          by_cases hfit : 20 + length c ≤ ifmtu.toNat
          · rw [fitting_first rs hfit]
            refine second_short rs [] (hshort hfit) fun b hb => Nat.not_le.mp fun hle => ?_
            exact hroom ⟨hfit, .inr ⟨b, (List.append_nil (rs.take 1) ▸ hb : b ∈ rs.take 1), hle⟩⟩
          · rw [fitting_eq_nil fun d hd => ?_]
            · decide
            · obtain rfl : c = d := Option.some.inj hd
              rw [fullSigned_ofLsupdate]
              exact decide_eq_true (Nat.not_le.mp hfit)
  | cons c as =>
      rw [hlist] at ha hroom
      obtain rfl : c = a := Option.some.inj ha
      by_cases hfit : 20 + length c ≤ ifmtu.toNat
      · refine .inl ?_
        rw [fitting_first as hfit]
        exact second_short as n.retransList (hshort hfit) fun b hb => Nat.not_le.mp fun hle =>
          hroom ⟨hfit, .inr ⟨b, hb, hle⟩⟩
      · exact .inr ⟨c, rfl, Nat.not_le.mp hfit⟩

end Room

/-! Runs one after another. -/

section Runs

variable {on : NbrRef} {n : Neighbor} {i : Interface} {s : State ρ} {m : Mem} {x : State ρ × Mem}

/-- Where the buffers of the next step lie. -/
def place (moves : Nat → Int) : M ρ Unit := hidden fun m => ((), { m with moves := moves })

/-- `ospf6_lsupdate_send_neighbor`, run again while it leaves an event for that, but for no more runs than there are
placements of their buffers; and whether another run is due. -/
def lsupdateRuns (on : NbrRef) : List (Nat → Int) → M ρ Bool
  | [] => pure true
  | d :: ds => do
      place d
      let before ← observe
      lsupdateSendNeighbor on
      let after ← observe
      if .lsupdateSendNeighbor on ∈ after.events.drop before.events.length then do
        modify fun s => { s with events := before.events }
        lsupdateRuns on ds
      else pure false

/-- The state after these runs. -/
def lsupdateState (on : NbrRef) (ds : List (Nat → Int)) (x : State ρ × Mem) : State ρ :=
  ((lsupdateRuns on ds : M ρ Bool) x.1 x.2).2.1

/-- What they send. -/
def lsupdatePackets (on : NbrRef) (ds : List (Nat → Int)) (x : State ρ × Mem) : List Output :=
  (lsupdateState on ds x).sent.drop x.1.sent.length

/-- Wherever the buffers lie: no assertion fails, every packet holds an LSA, what has left `lsupdate_list` is in the
packets, in order and each LSA once; and after some runs nothing is left. -/
structure Progress (on : NbrRef) (x : State ρ × Mem) : Prop where
  fault : ∀ ds, (lsupdateState on ds x).fault = false
  sent : ∀ ds, ∃ gs, List.Forall₂ (fun g o => ∃ r, Carries x.2.infoAt g r o ∧ 0 < g.length + r.length) gs
      (lsupdatePackets on ds x) ∧
    gs.flatten ++ ((lsupdateState on ds x).neighborAt on).lsupdateList = (x.1.neighborAt on).lsupdateList
  ends : ∃ k, ∀ ds, k ≤ ds.length → ((lsupdateState on ds x).neighborAt on).lsupdateList = []

/-- There is no one to send to below Exchange, and a run that makes a packet has room. -/
def Neighbor.Fits (ifmtu : Nat) (length : Addr → Nat) (n : Neighbor) : Prop :=
  (n.state < .exchange → n.lsupdateList = []) ∧ (¬ n.state < .exchange → n.Room ifmtu length)

/-- The first run and each that is due after some others begin so. -/
def EachFits (on : NbrRef) (ifmtu : UInt32) (x : State ρ × Mem) : Prop :=
  ∀ ds, (lsupdateRuns on ds x.1 x.2).1 = true →
    ((lsupdateState on ds x).neighborAt on).Fits ifmtu.toNat x.2.lsaSize

/-- A run that leaves no event is the last one. -/
theorem lsupdateRuns_stop {q : State ρ} {m' : Mem} {d : Nat → Int}
    (hrun : (lsupdateSendNeighbor on : M ρ Unit) s { m with moves := d } = ((), q, m'))
    (hevents : q.events = s.events) (ds : List (Nat → Int)) :
    (lsupdateRuns on (d :: ds) : M ρ Bool) s m = (false, q, m') := by
  have hobserve : ∀ (s : State ρ) (m : Mem), (Prog.observe : M ρ (State ρ)) s m = (s, s, m) := fun _ _ => rfl
  have hplace : (place d : M ρ Unit) s m = ((), s, { m with moves := d }) := rfl
  unfold lsupdateRuns
  rw [Prog.run_bind hplace, Prog.run_bind (hobserve s _), Prog.run_bind hrun, Prog.run_bind (hobserve q m'), hevents,
    List.drop_length, if_neg List.not_mem_nil]
  rfl

theorem lsupdateRuns_again {q : State ρ} {m' : Mem} {d : Nat → Int}
    (hrun : (lsupdateSendNeighbor on : M ρ Unit) s { m with moves := d } = ((), q, m'))
    (hevents : q.events = s.events ++ [.lsupdateSendNeighbor on]) (ds : List (Nat → Int)) :
    (lsupdateRuns on (d :: ds) : M ρ Bool) s m = (lsupdateRuns on ds : M ρ Bool) { q with events := s.events } m' := by
  have hobserve : ∀ (s : State ρ) (m : Mem), (Prog.observe : M ρ (State ρ)) s m = (s, s, m) := fun _ _ => rfl
  have hplace : (place d : M ρ Unit) s m = ((), s, { m with moves := d }) := rfl
  show (place d >>= fun _ => Prog.observe >>= fun before : State ρ => (lsupdateSendNeighbor on : M ρ Unit) >>= fun _ =>
    Prog.observe >>= fun after : State ρ => if .lsupdateSendNeighbor on ∈ after.events.drop before.events.length then
      (modify fun s => { s with events := before.events }) >>= fun _ =>
        lsupdateRuns on ds else pure false : M ρ Bool) s m = _
  rw [Prog.run_bind hplace, Prog.run_bind (hobserve s _), Prog.run_bind hrun, Prog.run_bind (hobserve q m'), hevents,
    List.drop_left, if_pos List.mem_cons_self]
  rfl

/-- A run whose assertion fails. -/
theorem lsupdateState_fault {q : State ρ} {m' : Mem} {d : Nat → Int}
    (hrun : (lsupdateSendNeighbor on : M ρ Unit) s { m with moves := d } = ((), q, m')) (hfault : q.fault = true) :
    (lsupdateState on [d] (s, m)).fault = true := by
  have hobserve : ∀ (s : State ρ) (m : Mem), (Prog.observe : M ρ (State ρ)) s m = (s, s, m) := fun _ _ => rfl
  have hplace : (place d : M ρ Unit) s m = ((), s, { m with moves := d }) := rfl
  unfold lsupdateState lsupdateRuns
  rw [Prog.run_bind hplace, Prog.run_bind (hobserve s _), Prog.run_bind hrun, Prog.run_bind (hobserve q m')]
  split
  · exact hfault
  · exact hfault

/-- What is true of the first run that is due is true of those behind it. -/
theorem EachFits.again {q : State ρ} {m' : Mem} {d : Nat → Int} (h : EachFits on i.ifmtu (s, m))
    (hrun : (lsupdateSendNeighbor on : M ρ Unit) s { m with moves := d } = ((), q, m'))
    (hevents : q.events = s.events ++ [.lsupdateSendNeighbor on]) (hsize : m'.lsaSize = m.lsaSize) :
    EachFits on i.ifmtu ({ q with events := s.events }, m') := by
  intro ds hdue
  have hruns := lsupdateRuns_again hrun hevents ds
  have hstate : lsupdateState on (d :: ds) (s, m) = lsupdateState on ds ({ q with events := s.events }, m') :=
    congrArg (fun r => r.2.1) hruns
  have hfits := h (d :: ds) ((congrArg Prod.fst hruns).trans hdue)
  rw [hstate] at hfits
  exact hsize ▸ hfits

/-- Runs after which nothing is left, where there are enough of them. -/
theorem lsupdateRuns_sends (h : Ready on n i s) (hfits : EachFits on i.ifmtu (s, m))
    (hlen : ∀ a, a ∈ n.lsupdateList ∨ a ∈ n.retransList → 20 ≤ m.lsaSize a) (ds : List (Nat → Int)) :
    ∃ due n' q m' gs os, (lsupdateRuns on ds : M ρ Bool) s m = (due, q, m') ∧ Ready on n' i q ∧ q.sent = s.sent ++ os ∧
      List.Forall₂ (fun g o => ∃ r, Carries m.infoAt g r o ∧ 0 < g.length + r.length) gs os ∧
        gs.flatten ++ n'.lsupdateList = n.lsupdateList ∧ (n.lsupdateList.length < ds.length → n'.lsupdateList = []) := by
  induction ds generalizing n s m with
  | nil =>
      exact ⟨true, n, s, m, [], [], rfl, h, (List.append_nil _).symm, .nil, rfl, fun hlt => absurd hlt (Nat.not_lt_zero _)⟩
  | cons d ds ih =>
      have hfit : n.Fits i.ifmtu.toNat m.lsaSize := by
        have hfirst := hfits [] rfl
        rw [show lsupdateState on [] (s, m) = s from rfl, h.holds.neighborAt_eq] at hfirst
        exact hfirst
      obtain ⟨n', q, m', hrun, hcase⟩ := lsupdateSendNeighbor_run h { m with moves := d }
      cases hcase with
      | idle hidle hq hleft hinfos hsent hevents =>
          have hnil : n.lsupdateList = [] := hidle.elim hfit.1 And.left
          exact ⟨false, n', q, m', [], [], lsupdateRuns_stop hrun hevents ds, hq, hsent.trans (List.append_nil _).symm,
            .nil, hleft.list, fun _ => hleft.list.trans hnil⟩
      | aborts hbusy hshort hfault =>
          obtain ⟨hstate, hempty⟩ := not_or.mp hbusy
          exact absurd ((hfit.2 hstate).packed d hempty hlen).1 (Nat.not_le.mpr hshort)
      | sends hbusy hwhole hq hinfos hleft r o hcarries hr hsent hevents =>
          obtain ⟨hstate, hempty⟩ := not_or.mp hbusy
          obtain ⟨-, honce, hagain⟩ := (hfit.2 hstate).packed d hempty hlen
          have hpos : 0 < (n.once (fullSigned i.ifmtu d) m.lsaSize).length + r.length := by
            by_cases hlist : n.lsupdateList = []
            · have hlength : r.length = (n.again (fullSigned i.ifmtu d) m.lsaSize).length := by
                exact (List.length_map _).symm.trans (congrArg List.length hr)
              exact Nat.add_pos_right _ (hlength ▸ List.length_pos_of_ne_nil (hagain hlist))
            · exact Nat.add_pos_left (List.length_pos_of_ne_nil (honce hlist)) _
          have hparts : n.once (fullSigned i.ifmtu d) m.lsaSize ++ n'.lsupdateList = n.lsupdateList := by
            rw [hleft.list]
            exact fitting_append_drop
          by_cases hnil : n'.lsupdateList = []
          · rw [if_pos hnil, List.append_nil] at hevents
            refine ⟨false, n', q, m', [n.once (fullSigned i.ifmtu d) m.lsaSize], [o], lsupdateRuns_stop hrun hevents ds,
              hq, hsent, .cons ⟨r, hcarries, hpos⟩ .nil, ?_, fun _ => hnil⟩
            rw [List.flatten_singleton]
            exact hparts
          · rw [if_neg hnil] at hevents
            have hlist : n.lsupdateList ≠ [] := fun heq => hnil (by rw [hleft.list, heq, List.drop_nil])
            have hmem : ∀ a, a ∈ n'.lsupdateList ∨ a ∈ n'.retransList → 20 ≤ m'.lsaSize a := by
              rw [hinfos.lsaSize, hleft.retrans, hleft.list]
              exact fun a ha => hlen a (ha.imp_left List.mem_of_mem_drop)
            have hq' : Ready on n' i { q with events := s.events } := ⟨hq.fault, hq.port, hq.area, hq.client⟩
            obtain ⟨due, n'', q', m'', gs, os, hruns, hready, hsent', hforall, hflatten, hend⟩ :=
              ih hq' (hfits.again hrun hevents hinfos.lsaSize) hmem
            rw [hinfos.infoAt] at hforall
            refine ⟨due, n'', q', m'', n.once (fullSigned i.ifmtu d) m.lsaSize :: gs, o :: os,
              (lsupdateRuns_again hrun hevents ds).trans hruns, hready, ?_, .cons ⟨r, hcarries, hpos⟩ hforall, ?_, ?_⟩
            · rw [hsent', hsent, List.append_assoc]
              rfl
            · rw [List.flatten_cons, List.append_assoc, hflatten, hparts]
            · intro hk
              have hlength := congrArg List.length hparts
              rw [List.length_append] at hlength
              have := List.length_pos_of_ne_nil (honce hlist)
              rw [List.length_cons] at hk
              exact hend (by omega)

/-- An LSA that cannot go out stays the first on the list however often it is tried, if no assertion fails. -/
theorem lsupdateRuns_keeps (h : Ready on n i s) {a : Addr} (ha : n.lsupdateList.head? = some a)
    (hlong : n.state < .exchange ∨ i.ifmtu.toNat < 20 + m.lsaSize a)
    (hfault : ∀ ds, (lsupdateState on ds (s, m)).fault = false) (ds : List (Nat → Int)) : ∃ due n' q m',
      (lsupdateRuns on ds : M ρ Bool) s m = (due, q, m') ∧ Ready on n' i q ∧ n'.lsupdateList.head? = some a := by
  induction ds generalizing n s m with
  | nil => exact ⟨true, n, s, m, rfl, h, ha⟩
  | cons d ds ih =>
      obtain ⟨n', q, m', hrun, hcase⟩ := lsupdateSendNeighbor_run h { m with moves := d }
      cases hcase with
      | idle hidle hq hleft hinfos hsent hevents =>
          exact ⟨false, n', q, m', lsupdateRuns_stop hrun hevents ds, hq, hleft.list ▸ ha⟩
      | aborts hbusy hshort hfail =>
          have hstill := hfault [d]
          rw [lsupdateState_fault hrun hfail] at hstill
          cases hstill
      | sends hbusy hwhole hq hinfos hleft r o hcarries hr hsent hevents =>
          have hlong' : i.ifmtu.toNat < 20 + m.lsaSize a := hlong.resolve_left fun hlt => hbusy (.inl hlt)
          have honce : n.once (fullSigned i.ifmtu d) m.lsaSize = [] := by
            unfold Neighbor.once
            rw [fitting_eq_nil fun c hc => ?_]
            obtain rfl : a = c := Option.some.inj (ha.symm.trans hc)
            rw [fullSigned_ofLsupdate]
            exact decide_eq_true hlong'
          have hlist : n'.lsupdateList = n.lsupdateList := by
            rw [hleft.list]
            exact congrArg (fun as : List Addr => n.lsupdateList.drop as.length) honce
          have ha' : n'.lsupdateList.head? = some a := hlist ▸ ha
          rw [if_neg fun hnil => by rw [hnil] at ha'; cases ha'] at hevents
          have hq' : Ready on n' i { q with events := s.events } := ⟨hq.fault, hq.port, hq.area, hq.client⟩
          obtain ⟨due, n'', q', m'', hruns, hready, hstay⟩ := ih hq' ha' (.inr (hinfos.lsaSize.symm ▸ hlong')) fun ds => by
            have hstill := hfault (d :: ds)
            unfold lsupdateState at hstill
            rw [lsupdateRuns_again hrun hevents ds] at hstill
            exact hstill
          exact ⟨due, n'', q', m'', (lsupdateRuns_again hrun hevents ds).trans hruns, hready, hstay⟩

/-- A run that begins where nothing fits gets stuck or fails. -/
theorem fits_of_ends (h : Ready on n i s) (hfault : ∀ ds, (lsupdateState on ds (s, m)).fault = false)
    (hends : ∃ k, ∀ ds, k ≤ ds.length → ((lsupdateState on ds (s, m)).neighborAt on).lsupdateList = []) :
    n.Fits i.ifmtu.toNat m.lsaSize := by
  obtain ⟨k, hends⟩ := hends
  have hgone : ∀ a, n.lsupdateList.head? = some a → ¬ (n.state < .exchange ∨ i.ifmtu.toNat < 20 + m.lsaSize a) := by
    intro a ha hlong
    obtain ⟨due, n', q, m', hrun, hq, hstay⟩ := lsupdateRuns_keeps h ha hlong hfault (List.replicate k m.moves)
    have hempty := hends (List.replicate k m.moves) (Nat.le_of_eq List.length_replicate.symm)
    unfold lsupdateState at hempty
    rw [hrun, hq.holds.neighborAt_eq] at hempty
    rw [hempty] at hstay
    cases hstay
  refine ⟨fun hlt => ?_, fun hstate => ?_⟩
  · cases hlist : n.lsupdateList with
    | nil => rfl
    | cons a as => exact absurd (.inl hlt) (hgone a (hlist ▸ rfl))
  · by_contra hroom
    obtain hshort | ⟨a, ha, hlong⟩ := stuck_of_not_room m.moves hroom
    · obtain ⟨n', q, m', hrun, hcase⟩ := lsupdateSendNeighbor_run h { m with moves := m.moves }
      cases hcase with
      | idle hidle =>
          refine hidle.elim hstate fun hempty => hroom ?_
          intro a ha
          rw [hempty.1, hempty.2] at ha
          cases ha
      | aborts hbusy hshort hfail =>
          have hstill := hfault [m.moves]
          rw [lsupdateState_fault hrun hfail] at hstill
          cases hstill
      | sends hbusy hwhole => exact Nat.not_le.mpr hshort hwhole
    · exact hgone a ha (.inr hlong)

/-- What the runs that are due hand on to each other, where none of them fails. -/
theorem eachFits_of_kept {P : Neighbor → State ρ → Mem → Prop}
    (hfits : ∀ {n s m}, Ready on n i s → P n s m → n.Fits i.ifmtu.toNat m.lsaSize)
    (hkept : ∀ {n s m d n' q m'}, Ready on n i s → P n s m → RunOf on n i s { m with moves := d } n' q m' →
      (lsupdateSendNeighbor on : M ρ Unit) s { m with moves := d } = ((), q, m') →
        q.fault = false ∧ (q.events = s.events ++ [.lsupdateSendNeighbor on] → P n' { q with events := s.events } m'))
    (h : Ready on n i s) (hP : P n s m) : EachFits on i.ifmtu (s, m) := by
  intro ds hdue
  induction ds generalizing n s m with
  | nil =>
      show (s.neighborAt on).Fits i.ifmtu.toNat m.lsaSize
      rw [h.holds.neighborAt_eq]
      exact hfits h hP
  | cons d ds ih =>
      obtain ⟨n', q, m', hrun, hcase⟩ := lsupdateSendNeighbor_run h { m with moves := d }
      obtain ⟨hfault, hnext⟩ := hkept h hP hcase hrun
      have hlast : q.events = s.events → False := fun hevents => by
        have hruns := congrArg Prod.fst (lsupdateRuns_stop hrun hevents ds)
        rw [show (lsupdateRuns on (d :: ds) s m).1 = true from hdue] at hruns
        cases hruns
      cases hcase with
      | idle hidle hq hleft hinfos hsent hevents => exact (hlast hevents).elim
      | aborts hbusy hshort hfail =>
          rw [hfail] at hfault
          cases hfault
      | sends hbusy hwhole hq hinfos hleft r o hcarries hr hsent hevents =>
          by_cases hnil : n'.lsupdateList = []
          · rw [if_pos hnil, List.append_nil] at hevents
            exact (hlast hevents).elim
          rw [if_neg hnil] at hevents
          have hruns := lsupdateRuns_again hrun hevents ds
          have hrest := ih (n := n') (s := { q with events := s.events }) ⟨hq.fault, hq.port, hq.area, hq.client⟩
            (hnext hevents) ((congrArg Prod.fst hruns).symm.trans hdue)
          have hstate : lsupdateState on (d :: ds) (s, m) = lsupdateState on ds ({ q with events := s.events }, m') :=
            congrArg (fun r => r.2.1) hruns
          rw [← hstate, hinfos.lsaSize] at hrest
          exact hrest

theorem eachFits_of_ends (h : Ready on n i s) (hfault : ∀ ds, (lsupdateState on ds (s, m)).fault = false)
    (hends : ∃ k, ∀ ds, k ≤ ds.length → ((lsupdateState on ds (s, m)).neighborAt on).lsupdateList = []) :
    EachFits on i.ifmtu (s, m) := by
  refine eachFits_of_kept (P := fun _ s m => (∀ ds, (lsupdateState on ds (s, m)).fault = false) ∧
      ∃ k, ∀ ds, k ≤ ds.length → ((lsupdateState on ds (s, m)).neighborAt on).lsupdateList = [])
    (fun h hP => fits_of_ends h hP.1 hP.2) ?_ h ⟨hfault, hends⟩
  rintro n s m d n' q m' - ⟨hfault, k, hends⟩ - hrun
  refine ⟨Bool.not_eq_true _ ▸ fun hfail => ?_, fun hevents => ?_⟩
  · have hstill := hfault [d]
    rw [lsupdateState_fault hrun hfail] at hstill
    cases hstill
  · have hstates : ∀ ds, lsupdateState on (d :: ds) (s, m) =
        lsupdateState on ds ({ q with events := s.events }, m') := fun ds =>
      congrArg (fun r => r.2.1) (lsupdateRuns_again hrun hevents ds)
    exact ⟨fun ds => hstates ds ▸ hfault (d :: ds), k, fun ds hk => hstates ds ▸ hends (d :: ds) (Nat.le_succ_of_le hk)⟩

/-- Sending makes progress, wherever the buffers lie, exactly where each run that is due has room. -/
theorem progress_iff (h : Ready on n i x.1)
    (hlen : ∀ a, a ∈ n.lsupdateList ∨ a ∈ n.retransList → 20 ≤ x.2.lsaSize a) :
    Progress on x ↔ EachFits on i.ifmtu x := by
  refine ⟨fun hp => eachFits_of_ends h hp.fault hp.ends, fun hfits => ?_⟩
  have hrun := fun ds => lsupdateRuns_sends h hfits hlen ds
  refine ⟨fun ds => ?_, fun ds => ?_, n.lsupdateList.length + 1, fun ds hk => ?_⟩
  · obtain ⟨due, n', q, m', gs, os, hruns, hq, -⟩ := hrun ds
    unfold lsupdateState
    rw [hruns]
    exact hq.fault
  · obtain ⟨due, n', q, m', gs, os, hruns, hq, hsent, hforall, hflatten, -⟩ := hrun ds
    have hstate : lsupdateState on ds x = q := congrArg (fun r => r.2.1) hruns
    refine ⟨gs, ?_, ?_⟩
    · unfold lsupdatePackets
      rw [hstate, hsent, List.drop_left]
      exact hforall
    · rw [hstate, hq.holds.neighborAt_eq, h.holds.neighborAt_eq]
      exact hflatten
  · obtain ⟨due, n', q, m', gs, os, hruns, hq, -, -, -, hend⟩ := hrun ds
    have hstate : lsupdateState on ds x = q := congrArg (fun r => r.2.1) hruns
    rw [hstate, hq.holds.neighborAt_eq]
    exact hend hk

/-- An LSA that fits a packet and is long enough for the assertion. -/
def Regular (ifmtu : Nat) (length : Addr → Nat) (a : Addr) : Prop := 24 ≤ length a ∧ 20 + length a ≤ ifmtu

/-- The lists of a neighbor from Exchange on, with such LSAs. -/
structure Neighbor.Regular (ifmtu : Nat) (length : Addr → Nat) (n : Neighbor) : Prop where
  state : ¬ n.state < .exchange
  all : ∀ a, a ∈ n.lsupdateList ∨ a ∈ n.retransList → Sibling.Regular ifmtu length a

theorem Neighbor.Regular.fits {ifmtu : Nat} {length : Addr → Nat} (h : n.Regular ifmtu length) : n.Fits ifmtu length := by
  refine ⟨fun hlt => absurd hlt h.state, fun _ a ha => ?_⟩
  obtain ⟨hle, hfit⟩ := h.all a (List.mem_append.mp (List.mem_of_mem_head? ha))
  exact ⟨hfit, .inl hle⟩

theorem Neighbor.Regular.eachFits (h : Ready on n i s) (hregular : n.Regular i.ifmtu.toNat m.lsaSize) :
    EachFits on i.ifmtu (s, m) := by
  refine eachFits_of_kept (P := fun n _ m => n.Regular i.ifmtu.toNat m.lsaSize) (fun _ hP => hP.fits) ?_ h hregular
  rintro n s m d n' q m' - hP hcase -
  cases hcase with
  | idle hidle hq hleft hinfos hsent hevents =>
      refine ⟨hq.fault, fun hagain => absurd (hevents.symm.trans hagain) ?_⟩
      exact fun heq => absurd (congrArg List.length heq) (by simp)
  | aborts hbusy hshort hfail =>
      have hpacked := (hP.fits.2 hP.state).packed d (not_or.mp hbusy).2 fun a ha =>
        Nat.le_trans (by decide) (hP.all a ha).1
      exact absurd hpacked.1 (Nat.not_le.mpr hshort)
  | sends hbusy hwhole hq hinfos hleft r o hcarries hr hsent hevents =>
      refine ⟨hq.fault, fun _ => ⟨hleft.state ▸ hP.state, ?_⟩⟩
      rw [hinfos.lsaSize, hleft.retrans, hleft.list]
      exact fun a ha => hP.all a (ha.imp_left List.mem_of_mem_drop)

/-- A neighbor in Full that asked for some LSAs. -/
def waiting (as : List Addr) : Neighbor := { Neighbor.create 2 with state := .full, lsupdateList := as }

/-- LSAs of these lengths, on their way over a link with an MTU of 1500 bytes. -/
def queued (lengths : List UInt16) : State Unit × Mem where
  fst := withInterface { (default : Interface) with neighborList := [waiting (List.range lengths.length)] }
  snd :=
    { heap := lengths.map fun length => .born (.ofHeader ⟨lstypeRouter, 0, 1, 0x80000001, 0, length⟩ [] false) 0 ⟨5, 0⟩
      clock := fun _ => ⟨5, 0⟩
      moves := fun _ => 0 }

theorem ready_queued (lengths : List UInt16) : Ready ⟨0, 2⟩ (waiting (List.range lengths.length))
    ((queued lengths).1.interfaceAt 0) (queued lengths).1 where
  fault := rfl
  port := ⟨[waiting _], rfl, rfl⟩
  area := ⟨_, rfl⟩
  client := ⟨_, rfl⟩

theorem progress_iff_queued : EachFits ⟨0, 2⟩ 1500 (queued [24, 1480, 100]) ∧
    Progress ⟨0, 2⟩ (queued [24, 1480, 100]) := by
  have hready := ready_queued [24, 1480, 100]
  have hregular : (waiting [0, 1, 2]).Regular 1500 (queued [24, 1480, 100]).2.lsaSize := by
    refine ⟨by decide, fun a ha => ?_⟩
    have hall : ∀ a ∈ [0, 1, 2], 24 ≤ (queued [24, 1480, 100]).2.lsaSize a ∧
        20 + (queued [24, 1480, 100]).2.lsaSize a ≤ 1500 := by decide
    exact hall a (ha.resolve_right List.not_mem_nil)
  have hfits := hregular.eachFits hready
  exact ⟨hfits, (progress_iff hready fun a ha => Nat.le_trans (by decide) (hregular.all a ha).1).mpr hfits⟩

/-- An LSA of 1481 bytes and more does not leave a sibling on a link of 1500. -/
theorem not_progress : ¬ ∀ (on : NbrRef) (n : Neighbor) (i : Interface) (x : State Unit × Mem), Ready on n i x.1 →
    (∀ a, a ∈ n.lsupdateList ∨ a ∈ n.retransList → 20 ≤ x.2.lsaSize a) → Progress on x := by
  intro h
  have hready := ready_queued [1481]
  have hlen : ∀ a, a ∈ (waiting [0]).lsupdateList ∨ a ∈ (waiting [0]).retransList → 20 ≤ (queued [1481]).2.lsaSize a := by
    rintro a (ha | ha)
    · obtain rfl := List.mem_singleton.mp ha
      decide
    · cases ha
  have hp := h ⟨0, 2⟩ (waiting [0]) _ (queued [1481]) hready hlen
  have hroom := (fits_of_ends hready hp.fault hp.ends).2 (by decide)
  exact absurd (hroom 0 rfl).1 (by decide)

end Runs

end Harry.Sibling
