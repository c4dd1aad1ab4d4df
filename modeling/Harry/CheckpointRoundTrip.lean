import Mathlib.Algebra.Ring.Nat
import Mathlib.Data.List.GetD
import Harry.CheckpointParse

/-! What becomes of a message that is stored as a checkpoint and read back. The assignments cover the message from its
begin to its end, so it comes back if every number does: a field of 32 bits that has more than `2 ^ 31` in it comes
back as another one. And the entries after the fixed part are assigned where they were only as long as the indices
stand at 0, that is, as long as no message with entries of the kind was read before. -/

namespace Harry.Checkpoint

open Harry.Sibling

/-- Assignments that begin at an offset and leave nothing out. -/
def Chained : Nat → List Store → Prop
  | _, [] => True
  | a, s :: ss => s.off = a ∧ Chained (a + s.width) ss

def Store.bytes (s : Store) : List UInt8 := leBytes s.width s.bits

@[simp] theorem length_leBytes (w v : Nat) : (leBytes w v).length = w := by
  induction w generalizing v with
  | zero => rfl
  | succ w ih => rw [leBytes, List.length_cons, ih]

theorem foldl_apply {a : Nat} {ss : List Store} (h : Chained a ss) (mem : Nat → UInt8) (i : Nat) :
    ss.foldl Store.apply mem i =
      if a ≤ i ∧ i < a + (ss.flatMap Store.bytes).length then (ss.flatMap Store.bytes).getD (i - a) 0 else mem i := by
  induction ss generalizing a mem with
  | nil =>
      rw [if_neg (by simp only [List.flatMap_nil, List.length_nil]; omega)]
      rfl
  | cons s ss ih =>
      obtain ⟨hoff, hss⟩ := h
      have hlen : s.bytes.length = s.width := length_leBytes s.width s.bits
      rw [List.foldl_cons, ih hss, List.flatMap_cons, List.length_append, hlen]
      by_cases hlow : a ≤ i ∧ i < a + s.width
      · have hin : s.off ≤ i ∧ i < s.off + s.width := by
          rw [hoff]
          exact hlow
        rw [if_neg (by omega), if_pos (by omega), Store.apply, if_pos hin, hoff,
          List.getD_append _ _ _ _ (by rw [hlen]; omega)]
        rfl
      · have hout : ¬ (s.off ≤ i ∧ i < s.off + s.width) := by
          rw [hoff]
          exact hlow
        by_cases hhigh : a + s.width ≤ i ∧ i < a + s.width + (ss.flatMap Store.bytes).length
        · rw [if_pos hhigh, if_pos (by omega), List.getD_append_right _ _ _ _ (by rw [hlen]; omega), hlen]
          congr 1
          omega
        · rw [if_neg hhigh, if_neg (by omega), Store.apply, if_neg hout]

/-- Assignments to all of a message. -/
theorem applied_of_chained {ss : List Store} (h : Chained 0 ss) (mem : Nat → UInt8) {size : Nat}
    (hsize : (ss.flatMap Store.bytes).length = size) : applied ss mem size = ss.flatMap Store.bytes := by
  apply List.ext_getElem
  · rw [applied, List.length_map, List.length_range, hsize]
  · intro i hi hi'
    simp only [applied, List.getElem_map, List.getElem_range]
    rw [foldl_apply h, if_pos (by omega), Nat.sub_zero, List.getD_eq_getElem _ _ hi']

/-- The number of bytes of a structure. -/
def layoutSize (fs : List Slot) : Nat := (fs.map Slot.width).sum

theorem layoutSize_append (fs gs : List Slot) : layoutSize (fs ++ gs) = layoutSize fs + layoutSize gs := by
  rw [layoutSize, List.map_append, List.sum_append]
  rfl

theorem chained_items (frame : List UInt8) (src dst : Nat) (fs : List Slot) :
    Chained dst ((items frame src dst fs).map Item.store) := by
  induction fs generalizing src dst with
  | nil => trivial
  | cons f fs ih => exact ⟨rfl, ih (src + f.width) (dst + f.width)⟩

theorem items_append (frame : List UInt8) (src dst : Nat) (fs gs : List Slot) :
    items frame src dst (fs ++ gs) =
      items frame src dst fs ++ items frame (src + layoutSize fs) (dst + layoutSize fs) gs := by
  induction fs generalizing src dst with
  | nil => rfl
  | cons f fs ih =>
      have hsize : layoutSize (f :: fs) = f.width + layoutSize fs := by
        simp [layoutSize]
      rw [List.cons_append, items, items, ih, hsize, Nat.add_assoc, Nat.add_assoc]
      rfl

theorem length_flatMap_items (frame : List UInt8) (src dst : Nat) (fs : List Slot) :
    (((items frame src dst fs).map Item.store).flatMap Store.bytes).length = layoutSize fs := by
  induction fs generalizing src dst with
  | nil => rfl
  | cons f fs ih =>
      rw [items, List.map_cons, List.flatMap_cons, List.length_append, ih]
      simp [layoutSize, Store.bytes, Item.store]

theorem leBytes_load {bs : List UInt8} {off w : Nat} (h : off + w ≤ bs.length) :
    leBytes w (load bs off w) = (bs.drop off).take w := by
  induction w generalizing off with
  | zero => rfl
  | succ w ih =>
      have hoff : off < bs.length := by omega
      have hb := (u8At bs off).toNat_lt
      have hlow : UInt8.ofNat ((u8At bs off).toNat + 2 ^ 8 * load bs (off + 1) w) = u8At bs off := by
        apply UInt8.toNat_inj.mp
        rw [UInt8.toNat_ofNat']
        omega
      have hhigh : ((u8At bs off).toNat + 2 ^ 8 * load bs (off + 1) w) / 2 ^ 8 = load bs (off + 1) w := by
        omega
      rw [load, leBytes, hlow, hhigh, ih (by omega), List.drop_eq_getElem_cons hoff, List.take_succ_cons, u8At,
        List.getD_eq_getElem _ _ hoff]

theorem leBytes_inj {w x y : Nat} (hx : x < 2 ^ (8 * w)) (hy : y < 2 ^ (8 * w)) (h : leBytes w x = leBytes w y) :
    x = y := by
  induction w generalizing x y with
  | zero =>
      simp only [Nat.mul_zero, Nat.pow_zero] at hx hy
      omega
  | succ w ih =>
      obtain ⟨hlow, hhigh⟩ := List.cons.inj h
      have hmod : x % 2 ^ 8 = y % 2 ^ 8 := by
        have := congrArg UInt8.toNat hlow
        rwa [UInt8.toNat_ofNat', UInt8.toNat_ofNat'] at this
      have hpow : 2 ^ (8 * (w + 1)) = 2 ^ 8 * 2 ^ (8 * w) := by
        rw [← Nat.pow_add]
        congr 1
        omega
      rw [hpow] at hx hy
      have hdiv := ih (Nat.div_lt_of_lt_mul hx) (Nat.div_lt_of_lt_mul hy) hhigh
      omega

/-- A number that fills its bytes comes back as the same bytes only if it comes back as the same number. -/
theorem leBytes_reread {w v : Nat} (hw : w ≤ 4) (hv : v < 2 ^ (8 * w)) :
    leBytes w (reread v) = leBytes w v ↔ reread v = v := by
  refine ⟨fun h => ?_, fun h => by rw [h]⟩
  by_cases hsmall : v < 2 ^ 31
  · exact if_pos hsmall
  · have h4 : w = 4 := by
      by_contra hne
      have hle : 2 ^ (8 * w) ≤ 2 ^ 24 := Nat.pow_le_pow_right (by decide) (by omega)
      omega
    subst h4
    exact leBytes_inj (by unfold reread; split <;> omega) hv h

/-- The numbers of a structure survive. -/
def Survives (frame : List UInt8) (src : Nat) (fs : List Slot) : Prop :=
  ∀ f ∈ fieldsAt src fs, reread (load frame f.off f.width) = load frame f.off f.width

theorem flatMap_items_eq_iff {frame : List UInt8} {src : Nat} (dst : Nat) {fs : List Slot} (hfs : Narrow fs)
    (hlen : src + layoutSize fs ≤ frame.length) :
    ((items frame src dst fs).map Item.store).flatMap Store.bytes = (frame.drop src).take (layoutSize fs) ↔
      Survives frame src fs := by
  induction fs generalizing src dst with
  | nil => exact iff_of_true rfl fun f hf => by cases hf
  | cons f fs ih =>
      have hsize : layoutSize (f :: fs) = f.width + layoutSize fs := by
        simp [layoutSize]
      rw [hsize] at hlen
      have htake : (frame.drop src).take (f.width + layoutSize fs) =
          leBytes f.width (load frame src f.width) ++ (frame.drop (src + f.width)).take (layoutSize fs) := by
        rw [leBytes_load (by omega), List.take_add, List.drop_drop]
      have htail := @ih (src + f.width) (dst + f.width) (fun f' hf' => hfs f' (List.mem_cons_of_mem f hf'))
        (by omega)
      rw [hsize, htake, items, List.map_cons, List.flatMap_cons]
      constructor
      · intro h
        obtain ⟨hhead, hrest⟩ := List.append_inj h (by simp [Store.bytes, Item.store])
        intro g hg
        rcases List.mem_cons.mp hg with rfl | hg
        · exact (leBytes_reread (hfs f List.mem_cons_self) (load_lt _ _ _)).mp hhead
        · exact htail.mp hrest g hg
      · intro h
        rw [htail.mpr fun g hg => h g (List.mem_cons_of_mem _ hg)]
        congr 1
        exact (leBytes_reread (hfs f List.mem_cons_self) (load_lt _ _ _)).mpr (h _ List.mem_cons_self)

namespace Kind

variable (k : Kind) (frame : List UInt8)

/-- The number of the entries of a message. -/
def count : Nat := (ospf6Length frame - k.start) / k.entrySize

/-- All entries of a message as one structure. -/
def entriesLayout (n : Nat) : List Slot := (List.replicate n k.entryLayout).flatten

/-- The header and the fixed part after it. -/
def fixedLayout : List Slot := headerLayout ++ k.layout

theorem layoutSize_entryLayout : layoutSize k.entryLayout = k.entrySize := by
  cases k <;> rfl

theorem layoutSize_fixedLayout : layoutSize k.fixedLayout = k.start := by
  cases k <;> rfl

theorem layoutSize_entriesLayout (n : Nat) : layoutSize (k.entriesLayout n) = n * k.entrySize := by
  induction n with
  | zero =>
      rw [Nat.zero_mul]
      rfl
  | succ n ih =>
      rw [entriesLayout, List.replicate_succ, List.flatten_cons, layoutSize_append, k.layoutSize_entryLayout,
        Nat.succ_mul, Nat.add_comm, ← ih]
      rfl

theorem place_bump (idx : Indices) : k.place (k.bump idx) = k.place idx + k.entrySize := by
  have hindex : k.index (k.bump idx) = k.index idx + 1 := by
    cases k <;> rfl
  rw [place, hindex, Nat.mul_succ, place, Nat.add_assoc]

theorem place_eq_start_iff (idx : Indices) : k.place idx = k.start ↔ k.index idx = 0 := by
  have hpos : 0 < k.entrySize := by
    cases k <;> decide
  unfold place
  constructor
  · intro h
    rcases Nat.mul_eq_zero.mp (by omega : k.entrySize * k.index idx = 0) with h0 | h0
    · omega
    · exact h0
  · intro h
    rw [h, Nat.mul_zero, Nat.add_zero]

theorem length_entries : (k.entries frame).length = k.count frame := by
  rw [entries, entryOffsets, List.length_map, List.length_range]
  rfl

/-- The index of a kind after entries of a kind. -/
theorem index_afterAll (k' : Kind) (idx : Indices) (offs : List Nat) :
    k.index (k'.afterAll false idx offs) = k.index idx + if k' = k then offs.length else 0 := by
  induction offs generalizing idx with
  | nil =>
      rw [List.length_nil, ite_self]
      rfl
  | cons off offs ih =>
      show k.index (k'.afterAll false (k'.bump idx) offs) = _
      rw [ih (k'.bump idx), List.length_cons]
      cases k <;> cases k' <;> simp [index, bump] <;> omega

theorem narrow_whole (n : Nat) : Narrow (k.fixedLayout ++ k.entriesLayout n) := by
  intro f hf
  rcases List.mem_append.mp hf with hf | hf
  · rcases List.mem_append.mp hf with hf | hf
    · exact narrow_headerLayout f hf
    · exact k.narrow_layout f hf
  · obtain ⟨fs, hfs, hf⟩ := List.mem_flatten.mp hf
    rw [List.eq_of_mem_replicate hfs] at hf
    exact k.narrow_entryLayout f hf

end Kind

theorem entriesActed_range (k : Kind) (frame : List UInt8) (idx : Indices) (i n : Nat) :
    entriesActed k frame false idx ((List.range' i n).map fun j => k.start + j * k.entrySize) =
      (items frame (k.start + i * k.entrySize) (k.place idx) (k.entriesLayout n)).map Item.store := by
  induction n generalizing i idx with
  | zero => rfl
  | succ n ih =>
      have hsrc : k.start + i * k.entrySize + k.entrySize = k.start + (i + 1) * k.entrySize := by
        rw [Nat.succ_mul, Nat.add_assoc]
      rw [List.range'_succ, List.map_cons, entriesActed, Kind.entriesLayout, List.replicate_succ, List.flatten_cons,
        items_append, k.layoutSize_entryLayout, ← k.place_bump, hsrc, List.map_append]
      exact congrArg₂ (· ++ ·) rfl (ih (k.bump idx) (i + 1))

/-- What a stored message is read back to: the fixed part where it was, the entries from where the index stands. -/
theorem stores_put {k : Kind} {frame : List UInt8} {text : List Char} (h : k.put frame = some text) (idx : Indices) :
    (jsonParse text idx).1 = (items frame 0 0 k.fixedLayout).map Item.store ++
      (items frame k.start (k.place idx) (k.entriesLayout (k.count frame))).map Item.store := by
  have hentries : k.entries frame = (List.range' 0 (k.count frame)).map fun j => k.start + j * k.entrySize := by
    rw [← List.range_eq_range']
    rfl
  have hsize : layoutSize headerLayout = 16 := rfl
  rw [jsonParse_put h, hentries, entriesActed_range, Kind.fixedLayout, items_append, hsize, List.map_append,
    Nat.zero_mul, Nat.add_zero, Nat.zero_add]

/-! ### The round trip -/

/-- A message as long as it says, with a fixed part of `start` bytes and whole entries of `size` bytes after it. -/
structure WholeMessage (start size : Nat) (frame : List UInt8) : Prop where
  length_eq : ospf6Length frame = frame.length
  start_le : start ≤ frame.length
  entries_whole : (frame.length - start) % size = 0

theorem applied_put_eq_iff {k : Kind} {frame : List UInt8} {text : List Char}
    (hframe : WholeMessage k.start k.entrySize frame) (hput : k.put frame = some text) (mem : Nat → UInt8) :
    applied (jsonParse text .initial).1 mem frame.length = frame ↔
      Survives frame 0 (k.fixedLayout ++ k.entriesLayout (k.count frame)) := by
  have hstores : (jsonParse text .initial).1 =
      (items frame 0 0 (k.fixedLayout ++ k.entriesLayout (k.count frame))).map Item.store := by
    have hplace : k.place .initial = k.start := (k.place_eq_start_iff _).mpr (by cases k <;> rfl)
    rw [stores_put hput, items_append, k.layoutSize_fixedLayout, Nat.zero_add, List.map_append, hplace]
  have hsize : layoutSize (k.fixedLayout ++ k.entriesLayout (k.count frame)) = frame.length := by
    rw [layoutSize_append, k.layoutSize_fixedLayout, k.layoutSize_entriesLayout, Kind.count, hframe.length_eq,
      Nat.div_mul_cancel (Nat.dvd_of_mod_eq_zero hframe.entries_whole), Nat.add_sub_cancel' hframe.start_le]
  have hnarrow := k.narrow_whole (k.count frame)
  rw [hstores, applied_of_chained (chained_items _ _ _ _) mem (by rw [length_flatMap_items, hsize]),
    ← flatMap_items_eq_iff 0 hnarrow (by omega), hsize, List.drop_zero, List.take_length]

/-- The fields of 32 bits. -/
def wordsAt : Nat → List Slot → List Nat
  | _, [] => []
  | off, f :: fs => (if f.width = 4 then [off] else []) ++ wordsAt (off + f.width) fs

theorem wordsAt_append (off : Nat) (fs gs : List Slot) :
    wordsAt off (fs ++ gs) = wordsAt off fs ++ wordsAt (off + layoutSize fs) gs := by
  induction fs generalizing off with
  | nil => rfl
  | cons f fs ih =>
      have hsize : layoutSize (f :: fs) = f.width + layoutSize fs := layoutSize_append [f] fs
      rw [List.cons_append, wordsAt, wordsAt, ih, hsize, Nat.add_assoc, List.append_assoc]

/-- A structure survives if its fields of 32 bits have no more than `2 ^ 31` in them. -/
theorem survives_iff {frame : List UInt8} {src : Nat} {fs : List Slot} (hfs : Narrow fs) :
    Survives frame src fs ↔ ∀ off ∈ wordsAt src fs, load frame off 4 ≤ 2 ^ 31 := by
  induction fs generalizing src with
  | nil => exact iff_of_true (fun f hf => by cases hf) fun off hoff => by cases hoff
  | cons f fs ih =>
      have htail := @ih (src + f.width) fun f' hf' => hfs f' (List.mem_cons_of_mem f hf')
      have hhead : reread (load frame src f.width) = load frame src f.width ↔
          ∀ off ∈ (if f.width = 4 then [src] else []), load frame off 4 ≤ 2 ^ 31 := by
        have hlt := load_lt frame src f.width
        by_cases h4 : f.width = 4
        · rw [h4] at hlt
          rw [if_pos h4, h4, reread_eq_iff hlt]
          simp
        · rw [if_neg h4]
          refine iff_of_true (if_pos ?_) fun off hoff => by cases hoff
          have hle : 2 ^ (8 * f.width) ≤ 2 ^ 24 := by
            have := hfs f List.mem_cons_self
            exact Nat.pow_le_pow_right (by decide) (by omega)
          omega
      unfold Survives at htail ⊢
      rw [fieldsAt, wordsAt, List.forall_mem_cons, List.forall_mem_append, htail, hhead]

theorem wordsAt_entriesLayout (k : Kind) (i n : Nat) :
    wordsAt (k.start + i * k.entrySize) (k.entriesLayout n) =
      ((List.range' i n).map fun j => k.start + j * k.entrySize).flatMap fun off => wordsAt off k.entryLayout := by
  induction n generalizing i with
  | zero => rfl
  | succ n ih =>
      rw [List.range'_succ, List.map_cons, List.flatMap_cons, ← ih (i + 1), Kind.entriesLayout, List.replicate_succ,
        List.flatten_cons, wordsAt_append, k.layoutSize_entryLayout, Nat.succ_mul, Nat.add_assoc]
      rfl

/-- A message comes back as it was if and only if its fields of 32 bits have no more than `2 ^ 31` in them. -/
theorem applied_put_iff {k : Kind} {frame : List UInt8} {text : List Char}
    (hframe : WholeMessage k.start k.entrySize frame) (hput : k.put frame = some text) (mem : Nat → UInt8) :
    applied (jsonParse text .initial).1 mem frame.length = frame ↔
      ∀ off ∈ wordsAt 0 k.fixedLayout ++ (k.entries frame).flatMap (fun off => wordsAt off k.entryLayout),
        load frame off 4 ≤ 2 ^ 31 := by
  have hentries : wordsAt k.start (k.entriesLayout (k.count frame)) =
      (k.entries frame).flatMap fun off => wordsAt off k.entryLayout := by
    have h := wordsAt_entriesLayout k 0 (k.count frame)
    rw [Nat.zero_mul, Nat.add_zero, ← List.range_eq_range'] at h
    exact h
  rw [applied_put_eq_iff hframe hput, survives_iff (k.narrow_whole _), wordsAt_append, k.layoutSize_fixedLayout,
    Nat.zero_add, hentries]

/-- A Hello with its router ids. -/
def IsHello (frame : List UInt8) : Prop := WholeMessage 36 4 frame

/-- A Database Description with its LSA headers. -/
def IsDbdesc (frame : List UInt8) : Prop := WholeMessage 28 20 frame

/-- The 32-bit fields of a Hello: router id, area id, interface id, designated and backup router, and the router ids
of the neighbors. -/
def helloWords (frame : List UInt8) : List Nat := [4, 8, 16, 28, 32] ++ entryOffsets frame 36 4

/-- The 32-bit fields of a Database Description: router id, area id and sequence number, and of each LSA header the
id, the advertising router and the sequence number. -/
def dbdescWords (frame : List UInt8) : List Nat :=
  [4, 8, 24] ++ (entryOffsets frame 28 20).flatMap fun off => [off + 4, off + 8, off + 12]

/-- A stored Hello is read back as it was if and only if no 32-bit field, taken as it lies in memory, is above
`2 ^ 31`. -/
theorem hello_roundtrip_iff {frame : List UInt8} {text : List Char} (hframe : IsHello frame)
    (hput : ospf6DbPutHello frame = some text) (mem : Nat → UInt8) :
    applied (jsonParse text .initial).1 mem frame.length = frame ↔
      ∀ off ∈ helloWords frame, load frame off 4 ≤ 2 ^ 31 := by
  have hentries : (Kind.hello.entries frame).flatMap (fun off => wordsAt off Kind.hello.entryLayout) =
      entryOffsets frame 36 4 := List.flatMap_singleton' _
  rw [applied_put_iff (k := .hello) hframe hput mem, hentries]
  rfl

/-- A Hello of router 1.1.1.1 that has heard of router 2.2.2.2. -/
def helloOfOne : List UInt8 :=
  [3, 1, 0, 40, 1, 1, 1, 1, 0, 0, 0, 0, 0, 0, 0, 0] ++ [0, 0, 0, 5, 1, 0, 0, 19, 0, 10, 0, 40, 0, 0, 0, 0, 0, 0, 0, 0] ++
    [2, 2, 2, 2]

theorem hello_roundtrip_one : IsHello helloOfOne ∧ ∃ text, ospf6DbPutHello helloOfOne = some text ∧
    applied (jsonParse text .initial).1 (fun _ => 0) 40 = helloOfOne := by
  have hframe : IsHello helloOfOne := ⟨by decide, by decide, by decide⟩
  obtain ⟨text, hput⟩ := Option.isSome_iff_exists.mp
    (by set_option maxRecDepth 8000 in decide : (ospf6DbPutHello helloOfOne).isSome = true)
  exact ⟨hframe, text, hput, (hello_roundtrip_iff hframe hput fun _ => 0).mpr (by decide)⟩

/-- A Hello of router 10.0.0.200. -/
def helloOf200 : List UInt8 :=
  [3, 1, 0, 36, 10, 0, 0, 200, 0, 0, 0, 0, 0, 0, 0, 0] ++
    [0, 0, 0, 5, 1, 0, 0, 19, 0, 10, 0, 40, 0, 0, 0, 0, 0, 0, 0, 0]

/-- Its router id comes back as another one. -/
theorem helloOf200_changed : IsHello helloOf200 ∧ ∃ text, ospf6DbPutHello helloOf200 = some text ∧
    applied (jsonParse text .initial).1 (fun _ => 0) 36 ≠ helloOf200 := by
  have hframe : IsHello helloOf200 := ⟨by decide, by decide, by decide⟩
  obtain ⟨text, hput⟩ := Option.isSome_iff_exists.mp
    (by set_option maxRecDepth 8000 in decide : (ospf6DbPutHello helloOf200).isSome = true)
  refine ⟨hframe, text, hput, fun heq => ?_⟩
  have hwords := (applied_put_iff (k := .hello) hframe hput fun _ => 0).mp heq
  exact absurd (hwords 4 (by decide)) (by decide)

/-- Likewise for a Database Description. -/
theorem dbdesc_roundtrip_iff {frame : List UInt8} {text : List Char} (hframe : IsDbdesc frame)
    (hput : ospf6DbPutDbdesc frame = some text) (mem : Nat → UInt8) :
    applied (jsonParse text .initial).1 mem frame.length = frame ↔
      ∀ off ∈ dbdescWords frame, load frame off 4 ≤ 2 ^ 31 := by
  rw [applied_put_iff (k := .dbdesc) hframe hput mem]
  rfl

/-- A Database Description of router 1.1.1.1 with the header of its router LSA. -/
def dbdescOfOne : List UInt8 :=
  [3, 2, 0, 48, 1, 1, 1, 1, 0, 0, 0, 0, 0, 0, 0, 0] ++ [0, 0, 0, 19, 5, 220, 0, 2, 0, 0, 16, 1] ++
    [0, 1, 32, 1, 0, 0, 0, 0, 1, 1, 1, 1, 128, 0, 0, 1, 18, 52, 0, 40]

theorem dbdesc_roundtrip_one : IsDbdesc dbdescOfOne ∧ ∃ text, ospf6DbPutDbdesc dbdescOfOne = some text ∧
    applied (jsonParse text .initial).1 (fun _ => 0) 48 = dbdescOfOne := by
  have hframe : IsDbdesc dbdescOfOne := ⟨by decide, by decide, by decide⟩
  obtain ⟨text, hput⟩ := Option.isSome_iff_exists.mp
    (by set_option maxRecDepth 8000 in decide : (ospf6DbPutDbdesc dbdescOfOne).isSome = true)
  exact ⟨hframe, text, hput, (dbdesc_roundtrip_iff hframe hput fun _ => 0).mpr (by decide)⟩

/-- A Database Description of router 1.1.1.1 with the header of the router LSA of 10.0.0.200. -/
def dbdescOf200 : List UInt8 :=
  [3, 2, 0, 48, 1, 1, 1, 1, 0, 0, 0, 0, 0, 0, 0, 0] ++ [0, 0, 0, 19, 5, 220, 0, 2, 0, 0, 16, 1] ++
    [0, 1, 32, 1, 0, 0, 0, 0, 10, 0, 0, 200, 128, 0, 0, 1, 18, 52, 0, 40]

/-- The advertising router comes back as another one. -/
theorem dbdescOf200_changed : IsDbdesc dbdescOf200 ∧ ∃ text, ospf6DbPutDbdesc dbdescOf200 = some text ∧
    applied (jsonParse text .initial).1 (fun _ => 0) 48 ≠ dbdescOf200 := by
  have hframe : IsDbdesc dbdescOf200 := ⟨by decide, by decide, by decide⟩
  obtain ⟨text, hput⟩ := Option.isSome_iff_exists.mp
    (by set_option maxRecDepth 8000 in decide : (ospf6DbPutDbdesc dbdescOf200).isSome = true)
  refine ⟨hframe, text, hput, fun heq => ?_⟩
  have hwords := (applied_put_iff (k := .dbdesc) hframe hput fun _ => 0).mp heq
  exact absurd (hwords 36 (by decide)) (by decide)

/-- A message with the text it is stored as. -/
structure Stored where
  kind : Kind
  frame : List UInt8
  text : List Char
  put_eq : kind.put frame = some text

/-- Where its entries are. -/
def Stored.entries (m : Stored) : List Nat := m.kind.entries m.frame

/-- The indices after messages have been read back one after another. -/
def readBack (idx : Indices) (ms : List Stored) : Indices := ms.foldl (fun idx m => (jsonParse m.text idx).2) idx

theorem index_readBack_eq_zero_iff (k : Kind) (idx : Indices) (ms : List Stored) :
    k.index (readBack idx ms) = 0 ↔ k.index idx = 0 ∧ ∀ m ∈ ms, m.kind = k → m.entries = [] := by
  induction ms generalizing idx with
  | nil => exact ⟨fun h => ⟨h, fun m hm => by cases hm⟩, fun h => h.1⟩
  | cons m ms ih =>
      have hstep : (jsonParse m.text idx).2 = m.kind.afterAll false idx m.entries := by
        rw [jsonParse_put m.put_eq]
        rfl
      show k.index (readBack (jsonParse m.text idx).2 ms) = 0 ↔ _
      rw [ih, hstep, Kind.index_afterAll, List.forall_mem_cons, and_assoc.symm]
      apply and_congr_left'
      by_cases hk : m.kind = k
      · rw [if_pos hk, Nat.add_eq_zero_iff, List.length_eq_zero_iff]
        simp only [hk, true_imp_iff]
      · rw [if_neg hk, Nat.add_zero]
        exact ⟨fun h => ⟨h, fun h' => absurd h' hk⟩, fun h => h.1⟩

theorem off_le_of_mem_items {frame : List UInt8} {src dst : Nat} {fs : List Slot} {i : Item}
    (h : i ∈ items frame src dst fs) : i.off + i.width ≤ dst + layoutSize fs := by
  induction fs generalizing src dst with
  | nil => cases h
  | cons f fs ih =>
      have hsize : layoutSize (f :: fs) = f.width + layoutSize fs := layoutSize_append [f] fs
      rcases List.mem_cons.mp h with rfl | h
      · rw [hsize, ← Nat.add_assoc]
        exact Nat.le_add_right _ _
      · rw [hsize, ← Nat.add_assoc]
        exact ih h

/-- The entries are assigned to where they were only if the index stands at 0. -/
theorem items_entries_eq_iff (k : Kind) (frame : List UInt8) (idx : Indices) :
    (items frame k.start (k.place idx) (k.entriesLayout (k.count frame))).map Item.store =
        (items frame k.start k.start (k.entriesLayout (k.count frame))).map Item.store ↔
      k.entries frame = [] ∨ k.index idx = 0 := by
  rw [← k.place_eq_start_iff, ← List.length_eq_zero_iff, k.length_entries]
  cases hn : k.count frame with
  | zero => exact iff_of_true rfl (.inl rfl)
  | succ n =>
      constructor
      · intro h
        have hoff : (k.place idx : Nat) = k.start := by
          cases k <;> exact congrArg Store.off (List.cons.inj h).1
        exact .inr hoff
      · rintro (h | h)
        · cases h
        · rw [h]

/-- The fixed part is assigned to its end. -/
theorem exists_store_end (k : Kind) (frame : List UInt8) :
    ∃ s ∈ (items frame 0 0 k.fixedLayout).map Item.store, s.off + s.width = k.start := by
  cases k with
  | hello =>
      refine ⟨⟨32, 4, reread (load frame 32 4)⟩, ?_, rfl⟩
      simp [items, Kind.fixedLayout, headerLayout, Kind.layout, helloLayout, Item.store]
  | dbdesc =>
      refine ⟨⟨24, 4, reread (load frame 24 4)⟩, ?_, rfl⟩
      simp [items, Kind.fixedLayout, headerLayout, Kind.layout, dbdescLayout, Item.store]

/-- The message at the end of any number of messages is read back as it would be alone, and inside of itself, if and
only if it has no entries or no message of its kind before it has any, and it is as long as its fixed part. -/
theorem readBack_independent_iff (ms : List Stored) (m : Stored) :
    ((jsonParse m.text (readBack .initial ms)).1 = (jsonParse m.text .initial).1 ∧
      ∀ s ∈ (jsonParse m.text (readBack .initial ms)).1, s.off + s.width ≤ ospf6Length m.frame) ↔
    (m.entries = [] ∨ ∀ m' ∈ ms, m'.kind = m.kind → m'.entries = []) ∧ m.kind.start ≤ ospf6Length m.frame := by
  have hinitial : m.kind.index .initial = 0 := by
    cases m.kind <;> rfl
  have hplace : m.kind.place .initial = m.kind.start := (m.kind.place_eq_start_iff _).mpr hinitial
  have hequal : (jsonParse m.text (readBack .initial ms)).1 = (jsonParse m.text .initial).1 ↔
      m.entries = [] ∨ ∀ m' ∈ ms, m'.kind = m.kind → m'.entries = [] := by
    rw [stores_put m.put_eq, stores_put m.put_eq, List.append_cancel_left_eq, hplace, items_entries_eq_iff,
      index_readBack_eq_zero_iff, and_iff_right hinitial]
    rfl
  rw [hequal]
  apply and_congr_right
  intro h
  rw [hequal.mpr h, stores_put m.put_eq, hplace]
  constructor
  · intro hin
    obtain ⟨s, hs, hend⟩ := exists_store_end m.kind m.frame
    rw [← hend]
    exact hin s (List.mem_append_left _ hs)
  · intro hstart s hs
    rcases List.mem_append.mp hs with hs | hs
    · obtain ⟨i, hi, rfl⟩ := List.mem_map.mp hs
      calc i.off + i.width ≤ 0 + layoutSize m.kind.fixedLayout := off_le_of_mem_items hi
        _ = m.kind.start := by rw [Nat.zero_add, m.kind.layoutSize_fixedLayout]
        _ ≤ ospf6Length m.frame := hstart
    · obtain ⟨i, hi, rfl⟩ := List.mem_map.mp hs
      calc i.off + i.width ≤ m.kind.start + layoutSize (m.kind.entriesLayout (m.kind.count m.frame)) :=
            off_le_of_mem_items hi
        _ = m.kind.start + m.kind.count m.frame * m.kind.entrySize := by rw [m.kind.layoutSize_entriesLayout]
        _ ≤ m.kind.start + (ospf6Length m.frame - m.kind.start) := Nat.add_le_add_left (Nat.div_mul_le_self _ _) _
        _ = ospf6Length m.frame := Nat.add_sub_cancel' hstart

/-- Two Hellos with one router id each: the id of the second one is not where it was. -/
theorem second_hello_displaced : ∃ m : Stored, m.kind = .hello ∧ IsHello m.frame ∧
    (jsonParse m.text (readBack .initial [m])).1 ≠ (jsonParse m.text .initial).1 := by
  have hframe : IsHello helloOfOne := ⟨by decide, by decide, by decide⟩
  have hentries : Kind.hello.entries helloOfOne ≠ [] := by decide
  obtain ⟨text, hput⟩ := Option.isSome_iff_exists.mp
    (by set_option maxRecDepth 8000 in decide : (ospf6DbPutHello helloOfOne).isSome = true)
  refine ⟨⟨.hello, helloOfOne, text, hput⟩, rfl, hframe, fun heq => ?_⟩
  rw [stores_put (k := .hello) hput, stores_put (k := .hello) hput, List.append_cancel_left_eq] at heq
  rcases (items_entries_eq_iff .hello helloOfOne _).mp heq with h | h
  · exact hentries h
  · obtain ⟨-, hnone⟩ := (index_readBack_eq_zero_iff .hello .initial [⟨.hello, helloOfOne, text, hput⟩]).mp h
    exact hentries (hnone _ List.mem_cons_self rfl)

end Harry.Checkpoint
