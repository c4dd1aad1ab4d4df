import Harry.SiblingSpf

/-! The prefixes in Link-LSAs and in Intra-Area-Prefix-LSAs, as `ospf6_intra.c` reads them. The length of a prefix says
how many bytes its record takes; the loops check that a record ends inside the LSA before they copy it, but neither that
the fixed part in front of the records does, nor that what they copy has room in an address. What they do to memory is
followed in the outputs of a call. -/

namespace Harry.Prefixes

open Harry.Base Harry.Rfp Harry.Sibling Harry.Routes Harry.Spf

/-- `OSPF6_PREFIX_SPACE`. -/
def prefixSpace (x : Nat) : Nat := (x + 31) / 32 * 4

/-- `OSPF6_PREFIX_SIZE`, of a prefix of a length. -/
def prefixSize (x : Nat) : Nat := prefixSpace x + 4

/-- What a walk does to memory: it reads bytes of the LSA, from the end of its header on, it copies bytes into the
address of a prefix, and it creates a route with a prefix length. -/
inductive Access where
  | read (offset size : Nat)
  | copy (size : Nat)
  | route (prefixlen : UInt8)
  deriving DecidableEq

/-- A `struct ospf6_prefix` and the address it has been copied to. -/
structure Decoded where
  prefixLength : UInt8
  prefixOptions : UInt8
  prefixMetric : UInt16
  addr : List UInt8
  deriving DecidableEq

/-- Bytes of an LSA. -/
def bytesFrom (lsa : SpfLsa) (offset n : Nat) : List UInt8 :=
  (List.range n).map fun i => lsa.bytes (offset + i)

/-- A 16-bit number in an LSA, in host order. -/
def half (lsa : SpfLsa) (i : Nat) : UInt16 :=
  UInt16.ofNat ((lsa.bytes i).toNat * 2 ^ 8 + (lsa.bytes (i + 1)).toNat)

/-- The record at an offset, with its address copied into one of 16 bytes that have been cleared. -/
def decodedAt (lsa : SpfLsa) (current : Nat) : Decoded where
  prefixLength := lsa.bytes current
  prefixOptions := lsa.bytes (current + 1)
  prefixMetric := half lsa (current + 2)
  addr := (bytesFrom lsa (current + 4) (prefixSpace (lsa.bytes current).toNat) ++ List.replicate 16 0).take 16

/-- The loop over the records of an LSA, with so many prefixes to come. `stop` ends it at a prefix length; `fields` is
what is read besides the length and the address. The first number bounds the runs of the loop. -/
def prefixLoop (stop : UInt8 → Bool) (fields : Nat → List Access) (lsa : SpfLsa) :
    Nat → Nat → Nat → Exec Access (List Decoded)
  | 0, _, _ => Exec.undefined
  | n + 1, current, prefixNum =>
    if current < lsa.size ∧ prefixNum ≠ 0 then do
      Exec.emit (.read current 1)
      let op := lsa.bytes current
      if stop op ∨ lsa.size < current + prefixSize op.toNat then pure []
      else do
        Exec.emits ([.read (current + 4) (prefixSpace op.toNat), .copy (prefixSpace op.toNat)] ++ fields current ++
          [.route op])
        let rest ← prefixLoop stop fields lsa n (current + prefixSize op.toNat) (prefixNum - 1)
        pure (decodedAt lsa current :: rest)
    else pure []

/-- The route for a prefix of a Link-LSA, in `ospf6_intra_prefix_lsa_originate_transit`. -/
def linkRoute (areaId : UInt32) (lsa : SpfLsa) (d : Decoded) : Route where
  type := 2
  dest := (byteBits d.addr).take d.prefixLength.toNat
  path :=
    { (default : Path) with
      origin := ⟨lsa.header.type, lsa.header.id, lsa.header.advRouter⟩
      options := [lsa.bytes 1, lsa.bytes 2, lsa.bytes 3]
      prefixOptions := d.prefixOptions
      areaId
      type := 1 }
  nexthop := []
  hostnum := 0

/-- The loop of `ospf6_intra_prefix_lsa_originate_transit` over the prefixes of a Link-LSA. `prefix_num` is an
`unsigned short`. -/
def linkPrefixes (lsa : SpfLsa) : Exec Access (List Decoded) := do
  Exec.emit (.read 20 4)
  prefixLoop (fun prefixLength => prefixLength = 0) (fun current => [.read 1 3, .read (current + 1) 1]) lsa
    (lsa.size + 1) 24 ((lsa.word 20).toNat % 2 ^ 16)

/-- The route for a prefix of an Intra-Area-Prefix-LSA, in `ospf6_intra_prefix_lsa_add`. The prefix is taken to be masked:
bits beyond its length stay in the copy that the source makes, and the tables compare all 16 bytes. -/
def intraRoute (areaId : UInt32) (lsEntry : Route) (lsa : SpfLsa) (d : Decoded) : Route where
  type := 2
  dest := (byteBits d.addr).take d.prefixLength.toNat
  path :=
    { (default : Path) with
      origin := ⟨lsa.header.type, lsa.header.id, lsa.header.advRouter⟩
      prefixOptions := d.prefixOptions
      areaId
      type := 1
      metricType := 1
      cost := lsEntry.path.cost + d.prefixMetric.toUInt32 }
  nexthop := setNexthops lsEntry.nexthop
  hostnum := 0

/-- The loop of `ospf6_intra_prefix_lsa_add` over the prefixes. -/
def intraPrefixes (lsa : SpfLsa) : Exec Access (List Decoded) :=
  prefixLoop (fun _ => false) (fun current => [.read (current + 1) 1, .read (current + 2) 2]) lsa (lsa.size + 1) 12
    (half lsa 0).toNat

/-- `ospf6_intra_prefix_lsa_add` up to `ospf6_route_add`: the routes for the prefixes of an LSA that is not too old.
The entry of the vertex it refers to is looked up in the table of the last calculation. -/
def intraPrefixLsaAdd (areaId : UInt32) (spfTable : List Bool → Option Route) (lsa : SpfLsa) :
    Exec Access (List Route) := do
  Exec.emit (.read 2 2)
  if half lsa 2 = lstypeRouter ∨ half lsa 2 = lstypeNetwork then do
    Exec.emit (.read 8 4)
    Exec.when (half lsa 2 = lstypeNetwork) (Exec.emit (.read 4 4))
    let id := if half lsa 2 = lstypeRouter then 0 else lsa.word 4
    match spfTable (linkstatePrefix (lsa.word 8) id) with
    | none => pure []
    | some lsEntry => do
      Exec.emit (.read 0 2)
      let prefixes ← intraPrefixes lsa
      pure (prefixes.map (intraRoute areaId lsEntry lsa))
  else pure []

/-! ### Bounds -/

/-- A call comes to an end, reads inside the LSA only, copies no more than an address has room for, and creates no
route with a longer prefix. -/
structure Safe {α : Type} (lsa : SpfLsa) (x : Exec Access α) : Prop where
  ends : x.result ≠ none
  inside : ∀ offset size, .read offset size ∈ x.outs → offset + size ≤ lsa.size
  room : ∀ size, .copy size ∈ x.outs → size ≤ 16
  short : ∀ prefixlen, .route prefixlen ∈ x.outs → prefixlen.toNat ≤ 128

/-- No record that a walk comes to has a prefix longer than an address. A walk goes from record to record as long as
there is one to come and it ends inside the LSA. -/
def Narrow (stop : UInt8 → Bool) (lsa : SpfLsa) : Nat → Nat → Prop
  | _, 0 => True
  | current, prefixNum + 1 =>
    current < lsa.size → ¬ stop (lsa.bytes current) → current + prefixSize (lsa.bytes current).toNat ≤ lsa.size →
      (lsa.bytes current).toNat ≤ 128 ∧
        Narrow stop lsa (current + prefixSize (lsa.bytes current).toNat) prefixNum

theorem prefixSpace_le_iff (x : Nat) : prefixSpace x ≤ 16 ↔ x ≤ 128 := by
  simp only [prefixSpace]
  omega

section Loop

variable {stop : UInt8 → Bool} {fields : Nat → List Access} {lsa : SpfLsa}

theorem prefixLoop_done {n current prefixNum : Nat} (h : ¬ (current < lsa.size ∧ prefixNum ≠ 0)) :
    prefixLoop stop fields lsa (n + 1) current prefixNum = pure [] := by
  rw [prefixLoop, if_neg h]

theorem prefixLoop_stop {n current prefixNum : Nat} (h : current < lsa.size ∧ prefixNum ≠ 0)
    (hstop : stop (lsa.bytes current) ∨ lsa.size < current + prefixSize (lsa.bytes current).toNat) :
    prefixLoop stop fields lsa (n + 1) current prefixNum = ⟨[.read current 1], some []⟩ := by
  rw [prefixLoop, if_pos h, if_pos hstop]
  rfl

/-- What is done with a record. -/
def recordAccesses (fields : Nat → List Access) (lsa : SpfLsa) (current : Nat) : List Access :=
  .read current 1 :: ([.read (current + 4) (prefixSpace (lsa.bytes current).toNat),
    .copy (prefixSpace (lsa.bytes current).toNat)] ++ fields current ++ [.route (lsa.bytes current)])

theorem prefixLoop_record {n current prefixNum : Nat} (h : current < lsa.size ∧ prefixNum ≠ 0)
    (hgo : ¬ (stop (lsa.bytes current) ∨ lsa.size < current + prefixSize (lsa.bytes current).toNat)) :
    let rest := prefixLoop stop fields lsa n (current + prefixSize (lsa.bytes current).toNat) (prefixNum - 1)
    (prefixLoop stop fields lsa (n + 1) current prefixNum).outs = recordAccesses fields lsa current ++ rest.outs ∧
      (prefixLoop stop fields lsa (n + 1) current prefixNum).result =
        rest.result.map fun ds => decodedAt lsa current :: ds := by
  intro rest
  rw [prefixLoop, if_pos h, if_neg hgo]
  have hrest : prefixLoop stop fields lsa n (current + prefixSize (lsa.bytes current).toNat) (prefixNum - 1) = rest :=
    rfl
  rw [hrest]
  constructor
  · rw [Exec.outs_emit_bind, Exec.outs_emits_bind]
    cases hr : rest.result with
    | none => rw [Exec.bind_of_none _ hr]; simp [recordAccesses]
    | some ds => rw [Exec.bind_of_some _ hr]; simp [recordAccesses]
  · simp only [Exec.result_bind, Exec.result_emit, Exec.result_emits, Option.bind_some, Exec.result_pure]
    cases rest.result <;> rfl

theorem safe_of_reads {α : Type} {x : Exec Access α} (hends : x.result ≠ none)
    (hreads : ∀ a ∈ x.outs, ∃ offset size, a = .read offset size ∧ offset + size ≤ lsa.size) : Safe lsa x := by
  refine ⟨hends, fun offset size h => ?_, fun size h => ?_, fun prefixlen h => ?_⟩
  · obtain ⟨o, n, heq, hle⟩ := hreads _ h
    cases heq
    exact hle
  · obtain ⟨o, n, heq, -⟩ := hreads _ h
    cases heq
  · obtain ⟨o, n, heq, -⟩ := hreads _ h
    cases heq

/-- A call that goes on after some accesses. -/
theorem safe_append_iff {α β : Type} {x : Exec Access α} {y : Exec Access β} {l : List Access}
    (houts : x.outs = l ++ y.outs) (hresult : x.result = none ↔ y.result = none) :
    Safe lsa x ↔ Safe lsa (⟨l, some ()⟩ : Exec Access Unit) ∧ Safe lsa y := by
  constructor
  · intro h
    refine ⟨⟨by simp, fun o n hm => h.inside o n ?_, fun n hm => h.room n ?_, fun p hm => h.short p ?_⟩,
      ⟨fun hn => h.ends (hresult.mpr hn), fun o n hm => h.inside o n ?_, fun n hm => h.room n ?_,
        fun p hm => h.short p ?_⟩⟩ <;> rw [houts] <;> simp [hm]
  · rintro ⟨ha, hy⟩
    refine ⟨fun hn => hy.ends (hresult.mp hn), fun o n hm => ?_, fun n hm => ?_, fun p hm => ?_⟩ <;>
      rw [houts, List.mem_append] at hm
    · exact hm.elim (ha.inside o n) (hy.inside o n)
    · exact hm.elim (ha.room n) (hy.room n)
    · exact hm.elim (ha.short p) (hy.short p)

theorem safe_pure {α : Type} (a : α) : Safe lsa (pure a) := safe_of_reads (by simp) (by simp)

theorem safe_read_bind_iff {α : Type} {offset size : Nat} {f : Unit → Exec Access α} :
    Safe lsa (Exec.emit (.read offset size) >>= f) ↔ offset + size ≤ lsa.size ∧ Safe lsa (f ()) := by
  rw [safe_append_iff (l := [.read offset size]) (y := f ()) (Exec.outs_emit_bind _ _) (by
    rw [Exec.result_bind]
    rfl)]
  refine and_congr_left fun _ => ⟨fun h => h.inside offset size (by simp), fun h => safe_of_reads (by simp)
    fun a ha => ⟨offset, size, List.mem_singleton.mp ha, h⟩⟩

theorem safe_map_iff {α β : Type} {x : Exec Access α} {g : α → β} :
    Safe lsa (x >>= fun a => pure (g a)) ↔ Safe lsa x := by
  refine (safe_append_iff (l := []) ?_ ?_).trans (and_iff_right (safe_of_reads (by simp) (by simp)))
  · cases hx : x.result with
    | none => rw [Exec.bind_of_none _ hx]; rfl
    | some a => rw [Exec.bind_of_some _ hx]; simp
  · rw [Exec.result_bind]
    cases x.result <;> simp

/-- The reads of a record are inside the LSA; what it is about is its length. -/
theorem safe_record_iff {current : Nat} (hfit : current + prefixSize (lsa.bytes current).toNat ≤ lsa.size)
    (hfields : ∀ a ∈ fields current, ∃ offset size, a = .read offset size ∧ (current + 4 ≤ lsa.size →
      offset + size ≤ lsa.size)) :
    Safe lsa (⟨recordAccesses fields lsa current, some ()⟩ : Exec Access Unit) ↔ (lsa.bytes current).toNat ≤ 128 := by
  have hsize : prefixSize (lsa.bytes current).toNat = prefixSpace (lsa.bytes current).toNat + 4 := rfl
  constructor
  · exact fun h => h.short _ (by simp [recordAccesses])
  · intro hle
    refine ⟨by simp, fun o n hm => ?_, fun n hm => ?_, fun p hm => ?_⟩ <;>
      simp only [recordAccesses, List.cons_append, List.nil_append, List.mem_cons, List.mem_append, List.not_mem_nil,
        or_false, reduceCtorEq, false_or, Access.read.injEq, Access.copy.injEq, Access.route.injEq] at hm
    · obtain ⟨rfl, rfl⟩ | ⟨rfl, rfl⟩ | hm := hm
      · omega
      · omega
      · obtain ⟨o', n', heq, hin⟩ := hfields _ hm
        cases heq
        exact hin (by omega)
    · obtain rfl | hm := hm
      · exact (prefixSpace_le_iff _).mpr hle
      · obtain ⟨o', n', heq, -⟩ := hfields _ hm
        cases heq
    · obtain hm | rfl := hm
      · obtain ⟨o', n', heq, -⟩ := hfields _ hm
        cases heq
      · exact hle

/-- The loop keeps its bounds if and only if no record it comes to has a longer prefix; it always comes to an end, as
each record takes at least four bytes. -/
theorem safe_prefixLoop_iff {n current prefixNum : Nat} (hn : lsa.size - current < n)
    (hfields : ∀ current, ∀ a ∈ fields current, ∃ offset size, a = .read offset size ∧ (current + 4 ≤ lsa.size →
      offset + size ≤ lsa.size)) :
    Safe lsa (prefixLoop stop fields lsa n current prefixNum) ↔ Narrow stop lsa current prefixNum := by
  induction n generalizing current prefixNum with
  | zero => omega
  | succ n ih =>
      by_cases h : current < lsa.size ∧ prefixNum ≠ 0
      · obtain ⟨m, rfl⟩ : ∃ m, prefixNum = m + 1 := ⟨prefixNum - 1, by omega⟩
        by_cases hgo : stop (lsa.bytes current) ∨ lsa.size < current + prefixSize (lsa.bytes current).toNat
        · rw [prefixLoop_stop h hgo, Narrow]
          refine iff_of_true (safe_of_reads (by simp) fun a ha => ?_) fun _ hstop hfit => ?_
          · obtain rfl := List.mem_singleton.mp ha
            exact ⟨current, 1, rfl, h.1⟩
          · obtain hs | hlong := hgo
            · exact absurd hs hstop
            · omega
        · obtain ⟨houts, hresult⟩ := @prefixLoop_record stop fields lsa n current (m + 1) h hgo
          have hfit : current + prefixSize (lsa.bytes current).toNat ≤ lsa.size := by
            by_contra hlong
            exact hgo (.inr (by omega))
          have hstop : ¬ stop (lsa.bytes current) := fun hs => hgo (.inl hs)
          have hsize : prefixSize (lsa.bytes current).toNat = prefixSpace (lsa.bytes current).toNat + 4 := rfl
          rw [safe_append_iff houts (by rw [hresult]; simp), safe_record_iff hfit (hfields current),
            ih (by omega), Narrow]
          exact ⟨fun hsafe _ _ _ => hsafe, fun hsafe => hsafe h.1 hstop hfit⟩
      · rw [prefixLoop_done h]
        refine iff_of_true (safe_of_reads (by simp) (by simp)) ?_
        cases prefixNum with
        | zero => trivial
        | succ m => exact fun hlt => absurd ⟨hlt, by simp⟩ h

end Loop

/-- `prefix_length == 0` ends the loop over the prefixes of a Link-LSA. -/
abbrev linkStop (prefixLength : UInt8) : Bool := prefixLength = 0

/-- A Link-LSA holds its fixed part, and no prefix that the loop comes to is too long. -/
def LinkFits (lsa : SpfLsa) : Prop :=
  24 ≤ lsa.size ∧ Narrow linkStop lsa 24 ((lsa.word 20).toNat % 2 ^ 16)

/-- An Intra-Area-Prefix-LSA holds as much of its fixed part as is read: the type it refers to, and where that is known
the rest. If the vertex has an entry, no prefix that the loop comes to is too long. -/
def IntraFits (spfTable : List Bool → Option Route) (lsa : SpfLsa) : Prop :=
  4 ≤ lsa.size ∧ (half lsa 2 = lstypeRouter ∨ half lsa 2 = lstypeNetwork → 12 ≤ lsa.size ∧
    ((spfTable (linkstatePrefix (lsa.word 8) (if half lsa 2 = lstypeRouter then 0 else lsa.word 4))).isSome →
      Narrow (fun _ => false) lsa 12 (half lsa 0).toNat))

theorem safe_linkPrefixes_iff (lsa : SpfLsa) : Safe lsa (linkPrefixes lsa) ↔ LinkFits lsa := by
  have hfields : ∀ current, ∀ a ∈ [Access.read 1 3, .read (current + 1) 1], ∃ offset size, a = .read offset size ∧
      (current + 4 ≤ lsa.size → offset + size ≤ lsa.size) := by
    intro current a ha
    obtain rfl | rfl : a = .read 1 3 ∨ a = .read (current + 1) 1 := by simpa using ha
    · exact ⟨1, 3, rfl, fun h => by omega⟩
    · exact ⟨current + 1, 1, rfl, fun h => by omega⟩
  rw [linkPrefixes, safe_read_bind_iff, LinkFits]
  exact and_congr_right fun _ => safe_prefixLoop_iff (by omega) hfields

theorem safe_intraPrefixes_iff (lsa : SpfLsa) :
    Safe lsa (intraPrefixes lsa) ↔ Narrow (fun _ => false) lsa 12 (half lsa 0).toNat := by
  refine safe_prefixLoop_iff (by omega) fun current a ha => ?_
  obtain rfl | rfl : a = .read (current + 1) 1 ∨ a = .read (current + 2) 2 := by simpa using ha
  · exact ⟨current + 1, 1, rfl, fun h => by omega⟩
  · exact ⟨current + 2, 2, rfl, fun h => by omega⟩

theorem safe_intraPrefixLsaAdd_iff (areaId : UInt32) (spfTable : List Bool → Option Route) (lsa : SpfLsa) :
    Safe lsa (intraPrefixLsaAdd areaId spfTable lsa) ↔ IntraFits spfTable lsa := by
  rw [intraPrefixLsaAdd, safe_read_bind_iff, IntraFits]
  refine and_congr_right fun hsize => ?_
  by_cases hknown : half lsa 2 = lstypeRouter ∨ half lsa 2 = lstypeNetwork
  · rw [if_pos hknown, safe_read_bind_iff]
    simp only [hknown, true_imp_iff]
    refine and_congr_right fun hfixed => ?_
    have hrest : Safe lsa (match spfTable (linkstatePrefix (lsa.word 8)
          (if half lsa 2 = lstypeRouter then 0 else lsa.word 4)) with
        | none => pure []
        | some lsEntry => do
          Exec.emit (.read 0 2)
          let prefixes ← intraPrefixes lsa
          pure (prefixes.map (intraRoute areaId lsEntry lsa))) ↔
        ((spfTable (linkstatePrefix (lsa.word 8) (if half lsa 2 = lstypeRouter then 0 else lsa.word 4))).isSome →
          Narrow (fun _ => false) lsa 12 (half lsa 0).toNat) := by
      cases spfTable (linkstatePrefix (lsa.word 8) (if half lsa 2 = lstypeRouter then 0 else lsa.word 4)) with
      | none => exact iff_of_true (safe_pure _) (by simp)
      | some lsEntry =>
          rw [safe_read_bind_iff, safe_map_iff, safe_intraPrefixes_iff]
          simp only [Option.isSome_some, true_imp_iff]
          exact and_iff_right (by omega)
    by_cases hnet : half lsa 2 = lstypeNetwork
    · simp only [Exec.when, hnet, if_true] at hrest ⊢
      rw [safe_read_bind_iff]
      exact (and_iff_right (by omega)).trans hrest
    · simp only [Exec.when, hnet, if_false] at hrest ⊢
      exact hrest
  · rw [if_neg hknown]
    exact iff_of_true (safe_pure _) fun hk => absurd hk hknown

/-- The walks over the prefixes keep their bounds, whatever the bytes of the LSAs, if and only if the fixed parts are
inside the LSAs, as far as they are read, and no record that a walk comes to has a prefix longer than an address. -/
theorem prefixes_safe_iff (areaId : UInt32) (spfTable : List Bool → Option Route) (link intra : SpfLsa) :
    (Safe link (linkPrefixes link) ↔ LinkFits link) ∧
      (Safe intra (intraPrefixLsaAdd areaId spfTable intra) ↔ IntraFits spfTable intra) :=
  ⟨safe_linkPrefixes_iff link, safe_intraPrefixLsaAdd_iff areaId spfTable intra⟩

/-- An LSA with a body. -/
def lsaOf (type : UInt16) (body : List UInt8) : SpfLsa where
  header := ⟨type, 1, 1, 0x80000001, 0, UInt16.ofNat (20 + body.length)⟩
  bytes i := body.getD i 0

/-- A Link-LSA with one prefix, of 129 bits, and an Intra-Area-Prefix-LSA with no body. -/
def longLink : SpfLsa :=
  lsaOf 0x0008 (List.replicate 20 0 ++ [0, 0, 0, 1] ++ [129, 0, 0, 0] ++ List.replicate 20 0xff)

/-- The prefix is copied over the end of the address of the route; the type that an LSA without a body refers to is read
behind its end. -/
theorem prefixes_not_safe : ¬ Safe longLink (linkPrefixes longLink) ∧
    ¬ Safe (lsaOf 0x2009 []) (intraPrefixLsaAdd 0 (fun _ => none) (lsaOf 0x2009 [])) := by
  constructor
  · intro h
    exact absurd (h.room 20 (by decide)) (by decide)
  · intro h
    exact absurd (h.inside 2 2 (by decide)) (by decide)

end Harry.Prefixes
