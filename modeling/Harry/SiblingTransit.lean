import Mathlib.Data.List.Dedup
import Harry.SiblingOriginate

/-! The prefixes of a transit network on their way from the Link-LSAs of a link to the Intra-Area-Prefix-LSA of its
designated router: they are decoded, merged in a table of routes, of which there may be several for one prefix, and
encoded again from a walk over the best routes. -/

namespace Harry.Originate

open Harry.Base Harry.Rfp Harry.Sibling Harry.Routes Harry.Spf Harry.Prefixes

/-- `struct ospf6_prefix` and its address: a masked prefix that is not the default route. -/
structure Ospf6Prefix where
  dest : List Bool
  prefixOptions : UInt8
  prefixMetric : UInt16
  pos : 0 < dest.length
  le : dest.length ≤ 128

/-- The record of a prefix. -/
def Ospf6Prefix.bytes (p : Ospf6Prefix) : List UInt8 :=
  [UInt8.ofNat p.dest.length] ++ ([p.prefixOptions] ++ (htons16 p.prefixMetric ++ prefixBody p.dest))

/-- An LSA ends with the records of some prefixes. -/
structure Carries (lsa : SpfLsa) (start : Nat) (ps : List Ospf6Prefix) : Prop where
  size : lsa.size = start + sizeOf (ps.map Ospf6Prefix.dest)
  bytes : Memory.at lsa.bytes start (sizeOf (ps.map Ospf6Prefix.dest)) = ps.flatMap Ospf6Prefix.bytes

/-- A well-formed Link-LSA. -/
structure LinkLsa where
  lsa : SpfLsa
  prefixes : List Ospf6Prefix
  type : lsa.header.type = lstypeLink
  num : lsa.word 20 = UInt32.ofNat prefixes.length
  carries : Carries lsa 24 prefixes

/-- The prefixes that the Link-LSAs of the router and of its full neighbors advertise. -/
def advertised (oi : Interface) (routerId : UInt32) (maxage : SpfLsa → Bool) (links : List LinkLsa) : List Ospf6Prefix :=
  (links.filter fun link => ¬ maxage link.lsa ∧ Counts oi routerId link.lsa).flatMap LinkLsa.prefixes

section Decode

variable {lsa : SpfLsa} {current : Nat} {p : Ospf6Prefix} {ps : List Ospf6Prefix}

theorem Ospf6Prefix.toNat_length (p : Ospf6Prefix) : (UInt8.ofNat p.dest.length).toNat = p.dest.length := by
  have hle := p.le
  rw [UInt8.toNat_ofNat']
  omega

theorem Ospf6Prefix.length_bytes (p : Ospf6Prefix) : p.bytes.length = prefixSize p.dest.length := by
  simp only [bytes, List.length_append, length_prefixBody p.le, prefixSize, htons16, htons, List.length_cons,
    List.length_nil]
  omega

theorem sizeOf_cons (dest : List Bool) (dests : List (List Bool)) :
    sizeOf (dest :: dests) = prefixSize dest.length + sizeOf dests := rfl

theorem four_mul_length_le (dests : List (List Bool)) : 4 * dests.length ≤ sizeOf dests := by
  induction dests with
  | nil => simp
  | cons dest dests ih =>
      rw [sizeOf_cons, List.length_cons, prefixSize]
      omega

theorem Carries.tail (h : Carries lsa current (p :: ps)) : Carries lsa (current + prefixSize p.dest.length) ps := by
  obtain ⟨hsize, hbytes⟩ := h
  rw [List.map_cons, sizeOf_cons] at hsize hbytes
  rw [Memory.at_add, List.flatMap_cons] at hbytes
  exact ⟨by omega, (List.append_inj hbytes (by rw [Memory.length_at, p.length_bytes])).2⟩

/-- The record that an LSA goes on with. -/
theorem Carries.head (h : Carries lsa current (p :: ps)) :
    lsa.bytes current = UInt8.ofNat p.dest.length ∧ lsa.bytes (current + 1) = p.prefixOptions ∧
      Memory.at lsa.bytes (current + 4) (prefixSpace p.dest.length) = prefixBody p.dest := by
  have hbytes := h.bytes
  rw [List.map_cons, sizeOf_cons, Memory.at_add, List.flatMap_cons] at hbytes
  have hp := (List.append_inj hbytes (by rw [Memory.length_at, p.length_bytes])).1
  have hsize : prefixSize p.dest.length = 1 + (1 + (2 + prefixSpace p.dest.length)) := by
    rw [prefixSize]
    omega
  rw [hsize, Memory.at_add, Memory.at_add, Memory.at_add, Ospf6Prefix.bytes] at hp
  obtain ⟨hlength, hp⟩ := List.append_inj hp (by simp [Memory.length_at])
  obtain ⟨hoptions, hp⟩ := List.append_inj hp (by simp [Memory.length_at])
  obtain ⟨-, hbody⟩ := List.append_inj hp (by simp [Memory.length_at, htons16, htons])
  exact ⟨by simpa [Memory.at] using hlength, by simpa [Memory.at] using hoptions, hbody⟩

/-- What is read of a record. -/
def told (d : Decoded) : List Bool × UInt8 :=
  ((byteBits d.addr).take d.prefixLength.toNat, d.prefixOptions)

theorem Carries.told_decodedAt (h : Carries lsa current (p :: ps)) :
    told (decodedAt lsa current) = (p.dest, p.prefixOptions) := by
  obtain ⟨hlength, hoptions, hbody⟩ := h.head
  have hle := p.le
  have hspace : prefixSpace p.dest.length ≤ 16 := (prefixSpace_le_iff _).mpr hle
  have hcover : p.dest.length ≤ 8 * prefixSpace p.dest.length := by
    rw [prefixSpace]
    omega
  have hfrom : bytesFrom lsa (current + 4) (prefixSpace p.dest.length) = prefixBody p.dest := hbody
  have haddr : (decodedAt lsa current).addr =
      prefixBody p.dest ++ List.replicate (16 - prefixSpace p.dest.length) 0 := by
    rw [decodedAt, hlength, p.toNat_length, hfrom, List.take_append, length_prefixBody hle, List.take_replicate,
      List.take_of_length_le (by rw [length_prefixBody hle]; exact hspace), Nat.min_eq_left (Nat.sub_le _ _)]
  have hbits : (byteBits (prefixBody p.dest)).length = 8 * prefixSpace p.dest.length := by
    rw [length_byteBits, length_prefixBody hle]
  have hall : byteBits (prefixBody p.dest) ++ byteBits ((addr6 p.dest).drop (prefixSpace p.dest.length)) =
      p.dest ++ List.replicate (128 - p.dest.length) false := by
    rw [← byteBits_append, prefixBody, List.take_append_drop, byteBits_addr6 hle]
  have hdest : (byteBits (prefixBody p.dest)).take p.dest.length = p.dest := by
    calc (byteBits (prefixBody p.dest)).take p.dest.length
        = (byteBits (prefixBody p.dest) ++ byteBits ((addr6 p.dest).drop (prefixSpace p.dest.length))).take
            p.dest.length := (List.take_append_of_le_length (by rw [hbits]; exact hcover)).symm
      _ = p.dest := by rw [hall, List.take_left]
  have hprefixLength : (decodedAt lsa current).prefixLength.toNat = p.dest.length := by
    rw [decodedAt, hlength, p.toNat_length]
  refine Prod.ext ?_ hoptions
  rw [told, hprefixLength, haddr, byteBits_append, List.take_append_of_le_length (by rw [hbits]; exact hcover), hdest]

/-- The loop over the records of a well-formed LSA finds them all. -/
theorem Carries.prefixLoop {fields : Nat → List Access} {n : Nat} (h : Carries lsa current ps)
    (hn : lsa.size - current < n) :
    ∃ ds, (prefixLoop linkStop fields lsa n current ps.length).result = some ds ∧
      ds.map told = ps.map fun p => (p.dest, p.prefixOptions) := by
  induction ps generalizing current n with
  | nil =>
      obtain ⟨n, rfl⟩ : ∃ m, n = m + 1 := ⟨n - 1, by omega⟩
      exact ⟨[], by rw [List.length_nil, prefixLoop_done (by simp)]; rfl, rfl⟩
  | cons p ps ih =>
      obtain ⟨n, rfl⟩ : ∃ m, n = m + 1 := ⟨n - 1, by omega⟩
      have hlength := h.head.1
      have hsize := h.size
      rw [List.map_cons, sizeOf_cons] at hsize
      have hpos : 4 ≤ prefixSize p.dest.length := by
        rw [prefixSize]
        omega
      have hgo : ¬ (linkStop (lsa.bytes current) ∨ lsa.size < current + prefixSize (lsa.bytes current).toNat) := by
        rw [hlength, p.toNat_length]
        rintro (hstop | hlong)
        · have hzero := congrArg UInt8.toNat (of_decide_eq_true hstop)
          rw [p.toNat_length] at hzero
          exact absurd hzero p.pos.ne'
        · omega
      have hmore : current < lsa.size ∧ (p :: ps).length ≠ 0 := ⟨by omega, by simp⟩
      obtain ⟨ds, hds, htold⟩ := ih h.tail (by omega : lsa.size - (current + prefixSize p.dest.length) < n)
      obtain ⟨-, hresult⟩ := @prefixLoop_record linkStop fields lsa n current (p :: ps).length hmore hgo
      rw [hlength, p.toNat_length] at hresult
      refine ⟨decodedAt lsa current :: ds, ?_, by rw [List.map_cons, List.map_cons, htold, h.told_decodedAt]⟩
      rw [hresult, List.length_cons, Nat.add_sub_cancel, hds]
      rfl

end Decode

/-- What a route says of its prefix. -/
def said (r : Route) : List Bool × UInt8 :=
  (r.dest, r.path.prefixOptions)

theorem LinkLsa.linkPrefixes (link : LinkLsa) : ∃ ds, (linkPrefixes link.lsa).result = some ds ∧
    ds.map told = link.prefixes.map fun p => (p.dest, p.prefixOptions) := by
  have hsize := link.carries.size
  have hcount := four_mul_length_le (link.prefixes.map Ospf6Prefix.dest)
  rw [List.length_map] at hcount
  have hlt := link.lsa.header.length.toNat_lt
  have hnum : (link.lsa.word 20).toNat % 2 ^ 16 = link.prefixes.length := by
    rw [SpfLsa.size] at hsize
    rw [link.num, UInt32.toNat_ofNat']
    omega
  rw [Prefixes.linkPrefixes, Exec.result_bind, hnum]
  exact link.carries.prefixLoop (by omega)

/-- The routes for the prefixes of the Link-LSAs say what these do. -/
theorem linkRoutes_eq (oi : Interface) (routerId areaId : UInt32) (maxage : SpfLsa → Bool) (links : List LinkLsa) :
    ∃ rs, linkRoutes oi routerId areaId maxage (links.map LinkLsa.lsa) = some rs ∧
      rs.map said = (advertised oi routerId maxage links).map (fun p => (p.dest, p.prefixOptions)) ∧
      ∀ r ∈ rs, r.path.Typed := by
  induction links with
  | nil => exact ⟨[], rfl, rfl, by simp⟩
  | cons link links ih =>
      obtain ⟨rs, hrs, hsaid, htyped⟩ := ih
      by_cases hcount : ¬ maxage link.lsa ∧ Counts oi routerId link.lsa
      · have hskip : ¬ (maxage link.lsa ∨ ¬ Counts oi routerId link.lsa) := by tauto
        obtain ⟨ds, hds, htold⟩ := link.linkPrefixes
        refine ⟨ds.map (linkRoute areaId link.lsa) ++ rs, ?_, ?_, fun r hr => ?_⟩
        · rw [List.map_cons, linkRoutes, if_neg hskip, hds, hrs]
          rfl
        · rw [advertised, List.filter_cons_of_pos (by simpa using hcount), List.flatMap_cons, List.map_append,
            List.map_append, List.map_map, ← htold]
          exact congrArg _ hsaid
        · obtain hr | hr := List.mem_append.mp hr
          · obtain ⟨d, -, rfl⟩ := List.mem_map.mp hr
            exact show (0 : UInt8) < 1 ∧ (1 : UInt8) < 6 from by decide
          · exact htyped r hr
      · have hskip : maxage link.lsa ∨ ¬ Counts oi routerId link.lsa := by tauto
        refine ⟨rs, ?_, ?_, htyped⟩
        · rw [List.map_cons, linkRoutes, if_pos hskip, hrs]
        · rw [advertised, List.filter_cons_of_neg (by simpa using hcount)]
          exact hsaid

section Merge

variable {s : Rtable} {c c' : Contents} {gs : List (List Bool × List Addr)} {a : Addr} {r : Route}

/-- A prefix has routes behind an addition if it had some or if the new route is one. -/
theorem add_routes_ne_nil (h : c.add a r = .ok c') (p : List Bool) :
    c'.routes p ≠ [] ↔ c.routes p ≠ [] ∨ r.dest = p := by
  simp only [Contents.add, bind, Except.bind] at h
  cases hs : groupSearch (Function.update c.route a r) r (c.routes r.dest) with
  | error e => simp [hs] at h
  | ok x =>
      obtain ⟨before, old, behind⟩ := x
      have hgroup := groupSearch_eq hs
      simp only [hs, pure, Except.pure] at h
      split_ifs at h with hsame
      · obtain rfl := Except.ok.inj h
        obtain ⟨o, ho, -⟩ := hsame
        refine ⟨.inl, fun hp => hp.elim id ?_⟩
        rintro rfl
        rw [hgroup, Option.mem_def.mp ho]
        simp
      · obtain rfl := Except.ok.inj h
        by_cases hp : p = r.dest
        · subst hp
          simp
        · simp [Function.update_of_ne hp, Ne.symm hp]

/-- Nothing is allocated by an addition but the route itself. -/
theorem live_of_step (h : Tracks s c gs) (ha : s.live a = false) {s' : Rtable} {f : Flags}
    (hstep : step s (.add a r f) = .ok s') {d : Addr} (hd : s'.live d = true) : d = a ∨ s.live d = true := by
  obtain ⟨hrep, hfresh⟩ := h.rep.create ha r f
  obtain ⟨herror, hok⟩ := hrep.add hfresh
  cases hs : groupSearch (routeCreate s a r f).route ((routeCreate s a r f).route a)
      (groupAt gs ((routeCreate s a r f).route a).dest) with
  | error e =>
      rw [Routes.step, herror e hs] at hstep
      exact absurd hstep (by simp [Except.map])
  | ok x =>
      obtain ⟨t, b, gs', hadd, hadded⟩ := hok x.1 x.2.1 x.2.2 hs
      rw [Routes.step, hadd] at hstep
      obtain rfl : t = s' := by simpa [Except.map] using hstep
      have hlive := hadded.live d hd
      by_cases hda : d = a
      · exact .inl hda
      · exact .inr (by simpa [routeCreate, Function.update_of_ne hda] using hlive)

/-- Routes with types are added one after another. Then a prefix has routes if it had some before or if one of these is
for it, and all routes there are old ones or these. -/
theorem Tracks.addRoutes {rs : List Route} (h : Tracks s c gs) (hfresh : ∀ d, a ≤ d → s.live d = false)
    (hc : ∀ p, ∀ b ∈ c.routes p, (c.route b).path.Typed) (hrs : ∀ r ∈ rs, r.path.Typed) :
    ∃ s' c' gs', addRoutes a s rs = .ok s' ∧ Tracks s' c' gs' ∧
      (∀ p, c'.routes p ≠ [] ↔ c.routes p ≠ [] ∨ ∃ r ∈ rs, r.dest = p) ∧
      ∀ p, ∀ b ∈ c'.routes p, (b ∈ c.routes p ∧ c'.route b = c.route b) ∨ c'.route b ∈ rs := by
  induction rs generalizing s c gs a with
  | nil => exact ⟨s, c, gs, rfl, h, by simp, fun p b hb => .inl ⟨hb, rfl⟩⟩
  | cons r rs ih =>
      have hra := hrs r (by simp)
      have hlive := hfresh a (Nat.le_refl a)
      have hnot : ∀ p, a ∉ c.routes p := by
        intro p hmem
        rw [← h.routes, h.rep.groupAt_eq] at hmem
        have hl := h.rep.live a (List.mem_of_mem_filter hmem)
        rw [hlive] at hl
        exact absurd hl (by simp)
      have hroute : ∀ p, ∀ b ∈ c.routes p, Function.update c.route a r b = c.route b := by
        intro p b hb
        refine Function.update_of_ne ?_ _ _
        rintro rfl
        exact hnot p hb
      cases hadd : c.add a r with
      | error e =>
          obtain ⟨-, d, hd, hun⟩ := Contents.add_error hadd
          rw [hroute _ d hd] at hun
          exact absurd ⟨hc _ d hd, hra⟩ hun
      | ok c₁ =>
          obtain ⟨s₁, gs₁, hstep, htracks⟩ := (h.add hlive r default).2 c₁ hadd
          obtain ⟨hroute₁, hmem₁⟩ := Contents.mem_add hadd
          have hnew : ∀ p, ∀ b ∈ c₁.routes p, (b ∈ c.routes p ∧ c₁.route b = c.route b) ∨ c₁.route b = r := by
            intro p b hb
            rw [hroute₁]
            obtain rfl | hb := hmem₁ p b hb
            · exact .inr (Function.update_self _ _ _)
            · exact .inl ⟨hb, hroute p b hb⟩
          obtain ⟨s', c', gs', hall, htracks', hne, hfrom⟩ := ih (a := a + 1) htracks
            (fun d hd => by
              by_contra hl
              obtain rfl | hl := live_of_step h hlive hstep (Bool.eq_true_of_not_eq_false hl)
              · exact Nat.not_succ_le_self _ hd
              · rw [hfresh d (Nat.le_of_succ_le hd)] at hl
                exact absurd hl (by simp))
            (fun p b hb => by
              obtain ⟨hb, heq⟩ | heq := hnew p b hb
              · exact heq ▸ hc p b hb
              · exact heq ▸ hra)
            fun x hx => hrs x (by simp [hx])
          refine ⟨s', c', gs', ?_, htracks', fun p => ?_, fun p b hb => ?_⟩
          · rw [Originate.addRoutes, hstep]
            exact hall
          · rw [hne, add_routes_ne_nil hadd, List.exists_mem_cons_iff, or_assoc]
          · obtain ⟨hb, heq⟩ | hin := hfrom p b hb
            · obtain ⟨hb, heq'⟩ | heq' := hnew p b hb
              · exact .inl ⟨hb, heq.trans heq'⟩
              · exact .inr (by rw [heq, heq']; simp)
            · exact .inr (List.mem_cons_of_mem r hin)

end Merge

section Walk

variable {s : Rtable} {gs A B : List (List Bool × List Addr)} {a : Addr} {b : List Bool} {g : List Addr} {n : Nat}

/-- The first routes of the groups. -/
def firsts (route : Addr → Route) (gs : List (List Bool × List Addr)) : List Route :=
  gs.filterMap fun x => x.2.head?.map route

/-- From the first route of a group the walk goes to the first one of the next group. -/
theorem Rep.routeBestNext (h : Rep s (some a) (A ++ (b, a :: g) :: B)) :
    ∃ s', routeBestNext s a = .ok (s', B.head?.bind fun x => x.2.head?) ∧ s'.route = s.route ∧
      ∀ c ∈ B.head?.bind fun x => x.2.head?, Rep s' (some c) (A ++ (b, a :: g) :: B) := by
  have hmem : (b, a :: g) ∈ A ++ (b, a :: g) :: B := by simp
  have hchain : a ∈ chain (A ++ (b, a :: g) :: B) := mem_chain.mpr ⟨_, hmem, by simp⟩
  have hrnode : s.rnode a = some b := (h.rnode a hchain).trans (by rw [h.dest _ hmem a (by simp)])
  obtain ⟨xs, ys, hnodes⟩ := List.append_of_mem (h.mem_nodes hmem)
  have hinfo : s.table.info b = some a := h.info _ hmem
  have hys : (ys.filter fun c => (s.table.info c).isSome) = B.map Prod.fst := by
    have hsplit := Table.stored_split hnodes
    have hsorted := h.kept.stored_pairwise
    rw [hinfo, Option.isSome_some, if_pos rfl, List.singleton_append] at hsplit
    rw [hsplit, List.pairwise_append, List.pairwise_cons] at hsorted
    have hnotx : b ∉ xs.filter fun c => (s.table.info c).isSome := fun hb =>
      lt_irrefl _ (hsorted.2.2 b hb b (by simp))
    have hnoty : b ∉ ys.filter fun c => (s.table.info c).isSome := fun hb => lt_irrefl _ (hsorted.2.1.1 b hb)
    rw [h.stored, List.map_append, List.map_cons] at hsplit
    exact ((List.append_cons_inj_of_notMem hnotx hnoty).mp hsplit.symm).2.2
  have hnext : Table.nextInfo s.table.top.nodes.length (Table.routeLockNode s.table b) b =
      some (s.table.lockNode? (B.head?.map Prod.fst), B.head?.map Prod.fst) := by
    have hlen : ys.length < s.table.top.nodes.length := by
      rw [hnodes, List.length_append, List.length_cons]
      omega
    rw [h.kept.nextInfo hlen hnodes, ← List.head?_filter, hys, List.head?_map]
  have hnodesB : ∀ p ∈ B.head?.map Prod.fst, p ∈ s.table.top.nodes := by
    intro p hp
    obtain ⟨x, hx, rfl⟩ := Option.map_eq_some_iff.mp hp
    exact h.mem_nodes (by simp [List.mem_of_mem_head? hx])
  have htake : takeInfo s (s.table.lockNode? (B.head?.map Prod.fst), B.head?.map Prod.fst) =
      .ok (s, B.head?.bind fun x => x.2.head?) := by
    rw [takeInfo_eq h.kept hnodesB]
    cases hB : B.head? with
    | none => rfl
    | some x => simp [h.info x (by simp [List.mem_of_mem_head? hB])]
  simp only [Originate.routeBestNext, hrnode, need, hnext, bind, Except.bind, htake]
  cases hfirst : B.head?.bind fun x => x.2.head? with
  | none => exact ⟨s, rfl, rfl, by simp⟩
  | some c =>
      obtain ⟨x, hx, hc⟩ := Option.bind_eq_some_iff.mp hfirst
      have hcmem : c ∈ chain (A ++ (b, a :: g) :: B) :=
        mem_chain.mpr ⟨x, by simp [List.mem_of_mem_head? hx], List.mem_of_mem_head? hc⟩
      obtain ⟨hun, hrep⟩ := h.unlock
      have hlock : routeLock (s.decLock a) c = .ok ((s.decLock a).incLock c) := if_pos (hrep.live c hcmem)
      simp only [hun, hlock]
      refine ⟨_, rfl, rfl, fun d hd => ?_⟩
      obtain rfl := Option.some.inj hd
      exact hrep.lock? (o := some c) fun e he => Option.some.inj he ▸ hcmem

/-- The walk comes to the first route of each group. -/
theorem Rep.bestFrom (h : Rep s (some a) (A ++ (b, a :: g) :: B)) (hn : B.length < n) :
    bestFrom n s (some a) = .ok (firsts s.route ((b, a :: g) :: B)) := by
  induction B generalizing A b g s a n with
  | nil =>
      obtain ⟨n, rfl⟩ : ∃ m, n = m + 1 := ⟨n - 1, by omega⟩
      obtain ⟨s', hstep, -, -⟩ := Rep.routeBestNext h
      simp only [Originate.bestFrom, hstep, bind, Except.bind, List.head?_nil, Option.bind_none]
      cases n <;> rfl
  | cons x B ih =>
      obtain ⟨n, rfl⟩ : ∃ m, n = m + 1 := ⟨n - 1, by omega⟩
      obtain ⟨p, l⟩ := x
      obtain ⟨c, l, rfl⟩ := List.exists_cons_of_ne_nil (h.nonempty (p, l) (by simp))
      obtain ⟨s', hstep, hroute, hrep⟩ := Rep.routeBestNext h
      have hrep' : Rep s' (some c) ((A ++ [(b, a :: g)]) ++ (p, c :: l) :: B) := by
        simpa using hrep c rfl
      have hrest := ih hrep' (by simpa using hn)
      rw [hroute] at hrest
      simp only [Originate.bestFrom, hstep, bind, Except.bind, List.head?_cons, Option.bind_some, hrest]
      rfl

theorem length_le_chain {gs : List (List Bool × List Addr)} (h : ∀ x ∈ gs, x.2 ≠ []) : gs.length ≤ (chain gs).length := by
  induction gs with
  | nil => simp
  | cons x gs ih =>
      have hpos := List.length_pos_iff.mpr (h x (by simp))
      have hrest := ih fun y hy => h y (by simp [hy])
      rw [chain_cons, List.length_append, List.length_cons]
      omega

theorem Rep.bestRoutes (h : Rep s none gs) : bestRoutes s = .ok (firsts s.route gs) := by
  obtain ⟨hhead, hrep⟩ := h.routeHead
  have hcount : gs.length ≤ s.count := by
    rw [h.count]
    exact length_le_chain h.nonempty
  cases gs with
  | nil =>
      rw [Originate.bestRoutes, hhead]
      simp only [bind, Except.bind, chain_nil, List.head?_nil, Rtable.lock?]
      cases s.count <;> rfl
  | cons x gs =>
      obtain ⟨p, l⟩ := x
      obtain ⟨c, l, rfl⟩ := List.exists_cons_of_ne_nil (h.nonempty (p, l) (by simp))
      have hwalk := Rep.bestFrom (A := []) hrep (Nat.lt_of_succ_le hcount)
      rw [Originate.bestRoutes, hhead]
      exact hwalk

end Walk

/-- Routes put in a new table: what the walk finds is in the order of the prefixes, with one of the routes for each. -/
theorem merge_spec {rs : List Route} (hrs : ∀ r ∈ rs, r.path.Typed) :
    ∃ s best, addRoutes 0 empty rs = .ok s ∧ bestRoutes s = .ok best ∧ (best.map Route.dest).Pairwise (· < ·) ∧
      (∀ p, p ∈ best.map Route.dest ↔ ∃ r ∈ rs, r.dest = p) ∧ ∀ r ∈ best, r ∈ rs := by
  have hempty : Tracks empty .empty [] := ⟨empty_rep, rfl, fun _ => rfl⟩
  obtain ⟨s, c, gs, hadd, htracks, hne, hfrom⟩ := Tracks.addRoutes (a := 0) hempty (fun _ _ => rfl)
    (by simp [Contents.empty]) hrs
  have hdest : (firsts s.route gs).map Route.dest = gs.map Prod.fst := by
    rw [firsts, List.map_filterMap, ← List.filterMap_eq_map]
    refine List.filterMap_congr fun x hx => ?_
    obtain ⟨d, l, hl⟩ := List.exists_cons_of_ne_nil (htracks.rep.nonempty x hx)
    simp [hl, htracks.rep.dest x hx d (by simp [hl])]
  have hrepresents := htracks.represents
  refine ⟨s, firsts s.route gs, hadd, Rep.bestRoutes htracks.rep, ?_, fun p => ?_, fun r hr => ?_⟩
  · rw [hdest]
    exact hrepresents.ascending
  · rw [hdest, hrepresents.mem, hne]
    simp [Contents.empty]
  · obtain ⟨x, hx, hr⟩ := List.mem_filterMap.mp hr
    obtain ⟨d, hd, rfl⟩ := Option.map_eq_some_iff.mp hr
    have hroutes : d ∈ c.routes x.1 := by
      rw [← htracks.routes, htracks.rep.groupAt_mem hx]
      exact List.mem_of_mem_head? hd
    rw [htracks.route]
    exact (hfrom x.1 d hroutes).resolve_left fun h => absurd h.1 (by simp [Contents.empty])

/-- A loop over a table comes to all its routes. -/
theorem Rep.allRoutes {s : Rtable} {gs : List (List Bool × List Addr)} (h : Rep s none gs) :
    allRoutes s = .ok ((chain gs).map s.route) := by
  obtain ⟨s', e, gs', hloop, -, ⟨-, rfl, hgs'⟩, -⟩ := Rep.forEach
    (v := fun (x : Rtable × List Route) a => .ok (x.1, x.2 ++ [x.1.route a]))
    (I := fun l m route _ e => route = s.route ∧ e = l.map s.route ∧ l ++ m = chain gs)
    (fun l a m s₁ gs₁ e h₁ hgs₁ hI => by
      obtain ⟨hroute, rfl, hall⟩ := hI
      exact ⟨s₁, _, gs₁, l ++ [a], rfl, h₁, by simp [hgs₁], rfl, ⟨hroute, by simp [hroute], by simpa using hall⟩,
        fun c hc => hc⟩) (e := []) h ⟨rfl, rfl, rfl⟩
  rw [Originate.allRoutes, hloop, ← hgs', List.append_nil]
  rfl

/-! ### Encoding -/

section Encode

variable {lsa : SpfLsa} {rs : List Route} {i n : Nat}

theorem half_of_htons (h : Memory.at lsa.bytes i 2 = htons n) : (half lsa i).toNat = n % 2 ^ 16 := by
  have h : [lsa.bytes i, lsa.bytes (i + 1)] = [UInt8.ofNat (n / 2 ^ 8), UInt8.ofNat n] := h
  simp only [List.cons.injEq, and_true] at h
  rw [half, h.1, h.2]
  simp only [UInt16.toNat_ofNat', UInt8.toNat_ofNat']
  omega

theorem word_of_htonl {x : UInt32} (h : Memory.at lsa.bytes i 4 = htonl x) : lsa.word i = x := by
  have h : [lsa.bytes i, lsa.bytes (i + 1), lsa.bytes (i + 2), lsa.bytes (i + 3)] = htonl x := h
  simp only [htonl, List.cons.injEq, and_true] at h
  rw [SpfLsa.word, h.1, h.2.1, h.2.2.1, h.2.2.2, ntohl_htonl]

/-- The prefixes of routes, whose records are written. -/
theorem exists_prefixes (h : ∀ r ∈ rs, 0 < r.dest.length ∧ r.dest.length ≤ 128) :
    ∃ ps : List Ospf6Prefix, (ps.map fun p => (p.dest, p.prefixOptions)) = rs.map said ∧
      ∀ op, written (prefixesStores op rs) = ps.flatMap Ospf6Prefix.bytes := by
  induction rs with
  | nil => exact ⟨[], rfl, fun _ => rfl⟩
  | cons r rs ih =>
      obtain ⟨ps, hps, hwritten⟩ := ih fun x hx => h x (by simp [hx])
      obtain ⟨hpos, hle⟩ := h r (by simp)
      refine ⟨⟨r.dest, r.path.prefixOptions, 0, hpos, hle⟩ :: ps, by rw [List.map_cons, hps]; rfl, fun op => ?_⟩
      have hrest : (prefixesStores (op + prefixSize r.dest.length) rs).flatMap Store.bytes =
          ps.flatMap Ospf6Prefix.bytes := hwritten _
      rw [prefixesStores, written, List.flatMap_append, hrest, List.flatMap_cons]
      simp [prefixStores, Ospf6Prefix.bytes, htons16]

/-- An LSA of which the records of some routes have been written last. -/
theorem carries_of_stores {b : Buffer} {start length : Nat} {ps : List Ospf6Prefix}
    (hdests : ps.map Ospf6Prefix.dest = rs.map Route.dest) (hle : ∀ r ∈ rs, r.dest.length ≤ 128)
    (hwritten : written (prefixesStores (20 + start) rs) = ps.flatMap Ospf6Prefix.bytes)
    (hlength : length = 20 + start + sizeOf (rs.map Route.dest)) (hfits : length < 2 ^ 16)
    (hheader : lsa.header.length = UInt16.ofNat length)
    (hbytes : ∀ n, Memory.at lsa.bytes start n = ((prefixesStores (20 + start) rs).foldl Memory.put b).at (20 + start) n) :
    Carries lsa start ps := by
  obtain ⟨hcontiguous, hlen⟩ := @contiguous_prefixesStores rs (20 + start) hle
  constructor
  · rw [SpfLsa.size, hheader, UInt16.toNat_ofNat', hdests]
    omega
  · rw [hbytes, hdests, ← hlen, hcontiguous.at_puts, hwritten]

end Encode

/-- A well-formed Intra-Area-Prefix-LSA. -/
structure IntraPrefixLsa where
  lsa : SpfLsa
  prefixes : List Ospf6Prefix
  type : lsa.header.type = lstypeIntraPrefix
  num : (half lsa 0).toNat = prefixes.length
  carries : Carries lsa 12 prefixes

/-- The LSA for the routes of a table is well formed and lists their prefixes. -/
theorem Rep.linkLsaOriginate {s : Rtable} {gs : List (List Bool × List Addr)} (h : Rep s none gs) {oi : Interface}
    (options : List UInt8) (routerId seqnum : UInt32) (hlinklocal : oi.linklocalAddr ≠ none)
    (hmasked : ∀ x ∈ gs, 0 < x.1.length ∧ x.1.length ≤ 128)
    (hfits : 44 + sizeOf ((chain gs).map fun a => (s.route a).dest) ≤ maxLsasize) :
    ∃ link : LinkLsa, (linkLsaOriginate oi options routerId seqnum s).result = some (.lsa link.lsa) ∧
      link.prefixes.map Ospf6Prefix.dest = (chain gs).map fun a => (s.route a).dest := by
  obtain ⟨linklocalAddr, haddr⟩ := Option.ne_none_iff_exists'.mp hlinklocal
  let rs := (chain gs).map s.route
  have hdests : rs.map Route.dest = (chain gs).map fun a => (s.route a).dest := List.map_map
  have hlen : ∀ r ∈ rs, 0 < r.dest.length ∧ r.dest.length ≤ 128 := by
    intro r hr
    obtain ⟨a, ha, rfl⟩ := List.mem_map.mp hr
    obtain ⟨x, hx, hax⟩ := mem_chain.mp ha
    rw [h.dest x hx a hax]
    exact hmasked x hx
  have hcount : rs.length = s.count := by rw [List.length_map, h.count]
  obtain ⟨ps, hps, hwritten⟩ := exists_prefixes hlen
  have hpd : ps.map Ospf6Prefix.dest = rs.map Route.dest := by
    have hfst := congrArg (List.map Prod.fst) hps
    rwa [List.map_map, List.map_map] at hfst
  have hpl : ps.length = rs.length := by simpa using congrArg List.length hpd
  rw [← hdests] at hfits
  obtain ⟨b', lsa, hfill, htype, -, -, -, hlength, hbytes⟩ := @fillHeader_spec
    ((prefixesStores 44 rs).foldl Memory.put ([⟨20, [oi.priority]⟩, ⟨21, sized 3 options⟩,
      ⟨24, sized 16 linklocalAddr⟩, ⟨40, htonl (UInt32.ofNat s.count)⟩].foldl Memory.put cleared))
    lstypeLink oi.ifindex routerId seqnum (44 + sizeOf (rs.map Route.dest))
  obtain ⟨hcontiguous, -⟩ := @contiguous_prefixesStores rs 44 fun r hr => (hlen r hr).2
  have hnum : Memory.at lsa.bytes 20 4 = htonl (UInt32.ofNat s.count) := by
    refine (hbytes 20 4).trans ((Memory.at_puts_of_disjoint fun st hst => .inl (hcontiguous.le st hst)).trans ?_)
    exact Memory.at_put _ ⟨40, htonl (UInt32.ofNat s.count)⟩
  have hcarries : Carries lsa 24 ps := carries_of_stores hpd (fun r hr => (hlen r hr).2) (hwritten 44) rfl
    (by rw [maxLsasize] at hfits; omega) hlength fun n => hbytes 24 n
  refine ⟨⟨lsa, ps, htype, by rw [word_of_htonl hnum, hpl, hcount], hcarries⟩, ?_, hpd.trans hdests⟩
  have hall : (Originate.allRoutes s).toOption = some rs := by rw [Rep.allRoutes h]; rfl
  simp only [Originate.linkLsaOriginate, haddr, stores, Exec.result_bind, Exec.result_emits, Exec.result_pure,
    Exec.result_deref, Option.bind_some, hall, hfill]

/-- The prefixes that are encoded are the ones that are decoded. -/
theorem linkLsaOriginate_spec {s : Rtable} {c : Contents} {gs : List (List Bool × List Addr)} (h : Tracks s c gs)
    {oi : Interface} (options : List UInt8) (routerId seqnum : UInt32) (hlinklocal : oi.linklocalAddr ≠ none)
    (hmasked : ∀ p, c.routes p ≠ [] → 0 < p.length ∧ p.length ≤ 128)
    (hroom : ∀ routes, allRoutes s = .ok routes → 44 + sizeOf (routes.map Route.dest) ≤ maxLsasize) :
    ∃ link : LinkLsa, (linkLsaOriginate oi options routerId seqnum s).result = some (.lsa link.lsa) ∧
      ∃ ds, (linkPrefixes link.lsa).result = some ds ∧
        ∀ p, p ∈ ds.map (fun d => (told d).1) ↔ c.routes p ≠ [] := by
  have hroutes : ∀ x ∈ gs, c.routes x.1 ≠ [] := by
    intro x hx
    rw [← h.routes, h.rep.groupAt_mem hx]
    exact h.rep.nonempty x hx
  obtain ⟨link, hlink, hdests⟩ := Rep.linkLsaOriginate h.rep options routerId seqnum hlinklocal
    (fun x hx => hmasked x.1 (hroutes x hx))
    (List.map_map (f := s.route) (g := Route.dest) ▸ hroom _ (Rep.allRoutes h.rep))
  obtain ⟨ds, hds, htold⟩ := link.linkPrefixes
  refine ⟨link, hlink, ds, hds, fun p => ?_⟩
  have hdecoded : ds.map (fun d => (told d).1) = link.prefixes.map Ospf6Prefix.dest := by
    have hfst := congrArg (List.map Prod.fst) htold
    rwa [List.map_map, List.map_map] at hfst
  rw [hdecoded, hdests, ← h.routes, h.rep.groupAt_eq]
  simp only [List.mem_map, ne_eq, List.filter_eq_nil_iff, beq_iff_eq, not_forall, not_not, exists_prop]

/-- A Link-LSA of the router or of a full neighbor, which is not too old, advertises a prefix. -/
def Advertised (oi : Interface) (routerId : UInt32) (maxage : SpfLsa → Bool) (links : List LinkLsa)
    (p : List Bool) : Prop :=
  ∃ link ∈ links, maxage link.lsa = false ∧
    (link.lsa.header.advRouter = routerId ∨
      ∃ on ∈ oi.neighborList, on.routerId = link.lsa.header.advRouter ∧ on.state = .full) ∧
    p ∈ link.prefixes.map Ospf6Prefix.dest

section Transit

variable {oi : Interface} {routerId areaId seqnum : UInt32} {maxage : SpfLsa → Bool} {lsdb : List SpfLsa}
  {links : List LinkLsa}

theorem counts_iff (hids : (oi.neighborList.map Neighbor.routerId).Nodup) (lsa : SpfLsa) :
    Counts oi routerId lsa ↔ lsa.header.advRouter = routerId ∨
      ∃ on ∈ oi.neighborList, on.routerId = lsa.header.advRouter ∧ on.state = .full := by
  refine or_congr_right ?_
  rw [Option.any_eq_true]
  constructor
  · rintro ⟨on, hon, hstate⟩
    exact ⟨on, List.mem_of_find?_eq_some hon, by simpa using List.find?_some hon, of_decide_eq_true hstate⟩
  · rintro ⟨on, hon, hid, hstate⟩
    refine ⟨on, ?_, decide_eq_true hstate⟩
    have hfound : (oi.neighborLookup lsa.header.advRouter).isSome :=
      List.find?_isSome.mpr ⟨on, hon, by simpa using hid⟩
    obtain ⟨on', hon'⟩ := Option.isSome_iff_exists.mp hfound
    have hid' : on'.routerId = lsa.header.advRouter := by simpa using List.find?_some hon'
    rw [hon', List.inj_on_of_nodup_map hids (List.mem_of_find?_eq_some hon') hon (hid'.trans hid.symm)]

theorem mem_advertised_iff (hids : (oi.neighborList.map Neighbor.routerId).Nodup) (p : List Bool) :
    p ∈ (advertised oi routerId maxage links).map Ospf6Prefix.dest ↔ Advertised oi routerId maxage links p := by
  simp only [advertised, List.map_flatMap, List.mem_flatMap, List.mem_filter, decide_eq_true_eq, counts_iff hids,
    Advertised, Bool.not_eq_true, and_assoc]

/-- The routes that the walk finds, if the router is the designated one and has a full neighbor. -/
theorem intraPrefixLsaOriginateTransit_eq
    (hlsdb : (lsdb.filter fun lsa => lsa.header.type = lstypeLink) = links.map LinkLsa.lsa) (hdr : oi.state = .dr)
    (hfull : oi.fullNeighbors ≠ []) :
    ∃ best, (best.map Route.dest).Pairwise (· < ·) ∧
      (∀ p, p ∈ best.map Route.dest ↔ p ∈ (advertised oi routerId maxage links).map Ospf6Prefix.dest) ∧
      intraPrefixLsaOriginateTransit oi routerId areaId seqnum maxage lsdb = (do
        let b ← stores cleared [⟨22, htons16 lstypeNetwork⟩, ⟨24, htonl oi.ifindex⟩, ⟨28, htonl routerId⟩]
        let b ← stores b (prefixesStores 32 best)
        if best.length % 2 ^ 16 = 0 then pure .nothing
        else do
          let b ← stores b [⟨20, htons (best.length % 2 ^ 16)⟩]
          let x ← fillHeader b lstypeIntraPrefix oi.ifindex routerId seqnum (32 + sizeOf (best.map Route.dest))
          pure (.lsa x.2)) := by
  obtain ⟨rs, hrs, hsaid, htyped⟩ := linkRoutes_eq oi routerId areaId maxage links
  obtain ⟨s, best, hadd, hbest, hsorted, hmem, -⟩ := merge_spec htyped
  refine ⟨best, hsorted, fun p => ?_, ?_⟩
  · have hdests := congrArg (List.map Prod.fst) hsaid
    rw [List.map_map, List.map_map] at hdests
    have hdests : rs.map Route.dest = (advertised oi routerId maxage links).map Ospf6Prefix.dest := hdests
    rw [hmem, ← hdests, List.mem_map]
  · have hno : ¬ (oi.state ≠ .dr ∨ oi.fullNeighbors = []) := by simp [hdr, hfull]
    have hs : (addRoutes 0 empty rs).toOption = some s := by rw [hadd]; rfl
    have hb : (bestRoutes s).toOption = some best := by rw [hbest]; rfl
    simp only [intraPrefixLsaOriginateTransit, if_neg hno, hlsdb, hrs, hs, hb, Exec.deref_some_bind]

/-- The LSA for a transit network is well formed, and lists each prefix that is advertised on the link just once and no
other; if there is none, there is no LSA. -/
theorem transit_spec (hlsdb : (lsdb.filter fun lsa => lsa.header.type = lstypeLink) = links.map LinkLsa.lsa)
    (hdr : oi.state = .dr) (hfull : oi.fullNeighbors ≠ []) (hids : (oi.neighborList.map Neighbor.routerId).Nodup)
    (hfits : ∀ ps : List (List Bool), ps.Nodup → (∀ p ∈ ps, Advertised oi routerId maxage links p) →
      32 + sizeOf ps ≤ maxLsasize) :
    ((∃ p, Advertised oi routerId maxage links p) → ∃ x : IntraPrefixLsa,
      (intraPrefixLsaOriginateTransit oi routerId areaId seqnum maxage lsdb).result = some (.lsa x.lsa) ∧
        (x.prefixes.map Ospf6Prefix.dest).Nodup ∧
        ∀ p, p ∈ x.prefixes.map Ospf6Prefix.dest ↔ Advertised oi routerId maxage links p) ∧
      ((¬ ∃ p, Advertised oi routerId maxage links p) →
        (intraPrefixLsaOriginateTransit oi routerId areaId seqnum maxage lsdb).result = some .nothing) := by
  obtain ⟨best, hsorted, hmem, heq⟩ := @intraPrefixLsaOriginateTransit_eq oi routerId areaId seqnum maxage lsdb links hlsdb
    hdr hfull
  have hmem : ∀ p, p ∈ best.map Route.dest ↔ Advertised oi routerId maxage links p := fun p =>
    (hmem p).trans (mem_advertised_iff hids p)
  have hnodup : (best.map Route.dest).Nodup := hsorted.imp ne_of_lt
  have hsize := hfits _ hnodup fun p hp => (hmem p).mp hp
  rw [maxLsasize] at hsize
  have hlength := four_mul_length_le (best.map Route.dest)
  rw [List.length_map] at hlength
  have hmod : best.length % 2 ^ 16 = best.length := Nat.mod_eq_of_lt (by omega)
  rw [heq]
  constructor
  · rintro ⟨p, hp⟩
    have hne : best.length ≠ 0 := by
      intro hnil
      have hp := (hmem p).mpr hp
      rw [List.length_eq_zero_iff.mp hnil] at hp
      exact absurd hp (by simp)
    have hlen : ∀ r ∈ best, 0 < r.dest.length ∧ r.dest.length ≤ 128 := by
      intro r hr
      obtain ⟨link, -, -, -, hin⟩ := (hmem r.dest).mp (List.mem_map_of_mem hr)
      obtain ⟨q, -, hq⟩ := List.mem_map.mp hin
      rw [← hq]
      exact ⟨q.pos, q.le⟩
    obtain ⟨ps, hps, hwritten⟩ := exists_prefixes hlen
    have hpd : ps.map Ospf6Prefix.dest = best.map Route.dest := by
      have hfst := congrArg (List.map Prod.fst) hps
      rwa [List.map_map, List.map_map] at hfst
    have hpl : ps.length = best.length := by simpa using congrArg List.length hpd
    let b := [⟨22, htons16 lstypeNetwork⟩, ⟨24, htonl oi.ifindex⟩, ⟨28, htonl routerId⟩].foldl Memory.put cleared
    obtain ⟨b', lsa, hfill, htype, -, -, -, hheader, hbytes⟩ := @fillHeader_spec
      (((prefixesStores 32 best).foldl Memory.put b).put ⟨20, htons best.length⟩)
      lstypeIntraPrefix oi.ifindex routerId seqnum (32 + sizeOf (best.map Route.dest))
    have hnum : Memory.at lsa.bytes 0 2 = htons best.length :=
      (hbytes 0 2).trans (Memory.at_put _ ⟨20, htons best.length⟩)
    have hcarries : Carries lsa 12 ps := carries_of_stores hpd (fun r hr => (hlen r hr).2) (hwritten 32) rfl
      (by omega) hheader fun n => (hbytes 12 n).trans (Memory.at_put_of_disjoint (.inr (by simp [htons])))
    refine ⟨⟨lsa, ps, htype, by rw [half_of_htons hnum, hpl, hmod], hcarries⟩, ?_, by rw [hpd]; exact hnodup, fun q => ?_⟩
    · simp only [hmod, if_neg hne, stores, Exec.result_bind, Exec.result_emits, Exec.result_pure, Option.bind_some,
        List.foldl_cons, List.foldl_nil]
      have hfill : (fillHeader (((prefixesStores 32 best).foldl Memory.put (((cleared.put ⟨22, htons16 lstypeNetwork⟩).put
          ⟨24, htonl oi.ifindex⟩).put ⟨28, htonl routerId⟩)).put
            ⟨20, htons best.length⟩) lstypeIntraPrefix oi.ifindex routerId
          seqnum (32 + sizeOf (best.map Route.dest))).result = some (b', lsa) := hfill
      rw [hfill]
      rfl
    · rw [hpd]
      exact hmem q
  · intro hnone
    have hnil : best = [] := by
      exact List.eq_nil_iff_forall_not_mem.mpr fun r hr => hnone ⟨r.dest, (hmem _).mp (List.mem_map_of_mem hr)⟩
    rw [hnil]
    rfl

end Transit

/-- The prefixes of a transit network are complete: what the router and its full neighbors advertise is listed, each
prefix once, and nothing else. What a router encodes of the routes that are connected to a link is decoded to their
prefixes. -/
theorem transit_prefixes_complete (oi : Interface) (routerId areaId seqnum : UInt32) (maxage : SpfLsa → Bool)
    (lsdb : List SpfLsa) (links : List LinkLsa)
    (hlsdb : (lsdb.filter fun lsa => lsa.header.type = lstypeLink) = links.map LinkLsa.lsa) (hdr : oi.state = .dr)
    (hfull : ∃ on ∈ oi.neighborList, on.state = .full) (hids : (oi.neighborList.map Neighbor.routerId).Nodup)
    (hfits : ∀ ps : List (List Bool), ps.Nodup → (∀ p ∈ ps, Advertised oi routerId maxage links p) →
      32 + sizeOf ps ≤ maxLsasize) :
    ((∃ p, Advertised oi routerId maxage links p) → ∃ x : IntraPrefixLsa,
      (intraPrefixLsaOriginateTransit oi routerId areaId seqnum maxage lsdb).result = some (.lsa x.lsa) ∧
        (x.prefixes.map Ospf6Prefix.dest).Nodup ∧
        ∀ p, p ∈ x.prefixes.map Ospf6Prefix.dest ↔ Advertised oi routerId maxage links p) ∧
      ((¬ ∃ p, Advertised oi routerId maxage links p) →
        (intraPrefixLsaOriginateTransit oi routerId areaId seqnum maxage lsdb).result = some .nothing) ∧
      ∀ (oi : Interface) (options : List UInt8) (ops : List Op) (s : Rtable) (c : Contents),
        LegalRun empty .empty ops → ops.foldlM step empty = .ok s → ops.foldlM Contents.step .empty = .ok c →
        oi.linklocalAddr ≠ none → (∀ p, c.routes p ≠ [] → 0 < p.length ∧ p.length ≤ 128) →
        (∀ routes, allRoutes s = .ok routes → 44 + sizeOf (routes.map Route.dest) ≤ maxLsasize) →
        ∃ link : LinkLsa, (linkLsaOriginate oi options routerId seqnum s).result = some (.lsa link.lsa) ∧
          ∃ ds, (linkPrefixes link.lsa).result = some ds ∧
            ∀ p, p ∈ ds.map (fun d => (told d).1) ↔ c.routes p ≠ [] := by
  have hne : oi.fullNeighbors ≠ [] := by
    obtain ⟨on, hon, hstate⟩ := hfull
    exact List.ne_nil_of_mem (List.mem_filter.mpr ⟨hon, by simp [hstate]⟩)
  obtain ⟨hsome, hnone⟩ := @transit_spec oi routerId areaId seqnum maxage lsdb links hlsdb hdr hne hids hfits
  refine ⟨hsome, hnone, ?_⟩
  intro oi options ops s c hlegal hs hc hlinklocal hmasked hroom
  have hempty : Tracks empty .empty [] := ⟨empty_rep, rfl, fun _ => rfl⟩
  obtain ⟨s', gs, hs', htracks⟩ := (hempty.run hlegal).2 c hc
  obtain rfl := Except.ok.inj (hs'.symm.trans hs)
  exact linkLsaOriginate_spec htracks options routerId seqnum hlinklocal hmasked hroom

/-- An interface whose router is the designated one, with a full neighbor. -/
def sampleInterface : Interface :=
  { (default : Interface) with
    ifindex := 3
    state := .dr
    linklocalAddr := some (0xfe :: 0x80 :: List.replicate 14 1)
    neighborList := [{ (default : Neighbor) with routerId := 2, state := .full }] }

/-- A prefix whose first bits are ones. -/
def onesPrefix (n : Nat) (h : 0 < n ∧ n ≤ 128) : Ospf6Prefix :=
  ⟨List.replicate n true, 0, 0, by rw [List.length_replicate]; exact h.1, by rw [List.length_replicate]; exact h.2⟩

/-- The Link-LSA of the router itself, with a prefix that is listed twice. -/
def sampleLink : LinkLsa where
  lsa := lsaOf lstypeLink (List.replicate 20 0 ++ [0, 0, 0, 3] ++
    [9, 0, 0, 0, 0xff, 0x80, 0, 0] ++ [9, 0, 0, 0, 0xff, 0x80, 0, 0] ++ [32, 0, 0, 0, 0xff, 0xff, 0xff, 0xff])
  prefixes := [onesPrefix 9 (by decide), onesPrefix 9 (by decide), onesPrefix 32 (by decide)]
  type := rfl
  num := by decide
  carries := ⟨by decide, by decide⟩

theorem sizeOf_le {dests : List (List Bool)} (h : ∀ dest ∈ dests, dest.length ≤ 128) :
    sizeOf dests ≤ 20 * dests.length := by
  induction dests with
  | nil => simp [sizeOf]
  | cons dest dests ih =>
      have hfirst := (prefixSpace_le_iff _).mpr (h dest (by simp))
      have hrest := ih fun d hd => h d (by simp [hd])
      rw [sizeOf_cons, List.length_cons, prefixSize]
      omega

/-- One connected route. -/
def sampleConnected : List Op :=
  [.add 0 (sampleRoute [true, false] 1 7) default]

theorem transit_prefixes_complete_sample :
    (∃ x : IntraPrefixLsa,
      (intraPrefixLsaOriginateTransit sampleInterface 1 0 1 (fun _ => false) [sampleLink.lsa]).result =
        some (.lsa x.lsa) ∧ (x.prefixes.map Ospf6Prefix.dest).Nodup ∧
        ∀ p, p ∈ x.prefixes.map Ospf6Prefix.dest ↔ Advertised sampleInterface 1 (fun _ => false) [sampleLink] p) ∧
      ∃ s, sampleConnected.foldlM step empty = .ok s ∧ ∃ link : LinkLsa,
        (linkLsaOriginate sampleInterface [] 1 1 s).result = some (.lsa link.lsa) ∧
          ∃ ds, (linkPrefixes link.lsa).result = some ds ∧ [true, false] ∈ ds.map fun d => (told d).1 := by
  have hlegal : LegalRun empty .empty sampleConnected := by decide
  have hall : sampleConnected.foldlM step empty >>= allRoutes = .ok [sampleRoute [true, false] 1 7] := rfl
  have hsize : ∀ ps : List (List Bool), ps.Nodup →
      (∀ p ∈ ps, Advertised sampleInterface 1 (fun _ => false) [sampleLink] p) → 32 + sizeOf ps ≤ maxLsasize := by
    intro ps hnodup hps
    have hsub : ps ⊆ [List.replicate 9 true, List.replicate 32 true] := by
      intro p hp
      obtain ⟨link, hlink, -, -, hin⟩ := hps p hp
      obtain rfl := List.mem_singleton.mp hlink
      simpa [sampleLink, onesPrefix] using hin
    have hlength : ps.length ≤ 2 := (List.subperm_of_subset hnodup hsub).length_le
    have hle : sizeOf ps ≤ 20 * ps.length := sizeOf_le fun p hp => by
      obtain rfl | rfl : p = List.replicate 9 true ∨ p = List.replicate 32 true := by simpa using hsub hp
      · decide
      · decide
    rw [maxLsasize]
    omega
  obtain ⟨hsome, -, hlink⟩ := transit_prefixes_complete sampleInterface 1 0 1 (fun _ => false) [sampleLink.lsa]
    [sampleLink] rfl rfl ⟨_, List.mem_singleton_self _, rfl⟩ (by decide) hsize
  refine ⟨hsome ⟨List.replicate 9 true, sampleLink, by simp, rfl, .inl rfl, by decide⟩, ?_⟩
  cases hs : sampleConnected.foldlM step empty with
  | error e => exact absurd (congrArg (· >>= allRoutes) hs |>.symm.trans hall) (by simp [bind, Except.bind])
  | ok s =>
      rw [hs] at hall
      obtain ⟨link, horiginate, ds, hds, hdests⟩ := hlink sampleInterface [] sampleConnected s _ hlegal hs rfl (by decide)
        (fun p hp => by
          by_cases hdest : p = [true, false]
          · subst hdest
            decide
          · exact absurd (Function.update_of_ne hdest _ _) hp)
        fun routes hroutes => by
          obtain rfl := Except.ok.inj (hall.symm.trans hroutes)
          decide
      exact ⟨s, rfl, link, horiginate, ds, hds, (hdests [true, false]).mpr (by simp [sampleRoute])⟩

end Harry.Originate
