import Mathlib.Tactic.IntervalCases
import Harry.SisisAddress

/-! Any text of an address gives the components it was made of: the text is expanded to all groups, and the groups are
cut as they were packed. -/

namespace Harry.Sisis

open Harry.Base

/-- A text of one group: at most four hexadecimal digits in either case. -/
structure GroupText (g : Nat) (s : List Char) : Prop where
  ne_nil : s ≠ []
  length_le : s.length ≤ 4
  digits : ∀ c ∈ s, (hexVal c).isSome = true
  value : hexNumber s = g

/-- The texts of an address: all groups, or all but one run of zeros. -/
inductive AddressText (gs : List Nat) : List Char → Prop where
  | full (ss : List (List Char)) (hss : List.Forall₂ GroupText gs ss) : AddressText gs ([':'].intercalate ss)
  | compressed (pre post : List Nat) (z : Nat) (ss ts : List (List Char)) (hgs : gs = pre ++ List.replicate z 0 ++ post)
      (hz : 0 < z) (hss : List.Forall₂ GroupText pre ss) (hts : List.Forall₂ GroupText post ts) :
      AddressText gs ([':'].intercalate ss ++ [':', ':'] ++ [':'].intercalate ts)

theorem GroupText.colon {g : Nat} {s : List Char} (h : GroupText g s) : ∀ c ∈ s, c ≠ ':' := by
  intro c hc hcolon
  have hdigit := h.digits c hc
  rw [hcolon] at hdigit
  exact absurd hdigit (by decide)

theorem hexVal_digitChar {d : Nat} (hd : d < 16) : hexVal d.digitChar = some d := by
  interval_cases d <;> rfl

theorem groupText_hex4 {g : Nat} (hg : g < 2 ^ 16) : GroupText g (hex4 g) := by
  have hdigit (k : Nat) : hexVal (k % 16).digitChar = some (k % 16) := hexVal_digitChar (Nat.mod_lt _ (by decide))
  refine ⟨List.cons_ne_nil _ _, Nat.le_refl 4, ?_, ?_⟩
  · intro c hc
    rw [hex4, List.mem_map] at hc
    obtain ⟨d, hd, rfl⟩ := hc
    have hlt : d < 16 := by
      simp only [List.mem_cons, List.not_mem_nil, or_false] at hd
      omega
    rw [hexVal_digitChar hlt]
    rfl
  · simp only [hexNumber, hex4, List.map_cons, List.map_nil, List.foldl_cons, List.foldl_nil, hdigit, Option.getD_some]
    omega

theorem groupText_zero : GroupText 0 ['0'] where
  ne_nil := List.cons_ne_nil _ _
  length_le := by decide
  digits c hc := by
    obtain rfl := List.mem_singleton.mp hc
    rfl
  value := rfl

theorem scanHx_groupText {g : Nat} {s rest : List Char} (h : GroupText g s) (hrest : rest = [] ∨ rest.head? = some ':')
    (part : Nat) : scanHx part (s ++ rest) = g := by
  have htake : ((s ++ rest).take 4).takeWhile (fun c => (hexVal c).isSome) = s := by
    have hstop : (rest.take (4 - s.length)).takeWhile (fun c => (hexVal c).isSome) = [] := by
      rcases hrest with rfl | hcolon
      · simp
      · cases rest with
        | nil => simp
        | cons c rest =>
            obtain rfl : c = ':' := Option.some.inj hcolon
            cases 4 - s.length with
            | zero => rfl
            | succ n =>
                have hnot : ¬ (hexVal ':').isSome = true := by decide
                rw [List.take_succ_cons]
                exact List.takeWhile_cons_of_neg hnot
    rw [List.take_append, List.take_of_length_le h.length_le, List.takeWhile_append_of_pos h.digits, hstop,
      List.append_nil]
  rw [scanHx, htake]
  cases s with
  | nil => exact absurd rfl h.ne_nil
  | cons d ds => exact h.value

theorem nextGroup_groupText {g : Nat} {s rest : List Char} (h : GroupText g s) :
    nextGroup (s ++ rest) = nextGroup rest := by
  have hcolon : ∀ c ∈ s, decide (c ≠ ':') = true := fun c hc => decide_eq_true (h.colon c hc)
  rw [nextGroup, List.dropWhile_append_of_pos hcolon, nextGroup]

theorem reads_joined {gs : List Nat} {ss : List (List Char)} (h : List.Forall₂ GroupText gs ss) :
    Reads ([':'].intercalate ss) gs := by
  induction h with
  | nil => exact trivial
  | @cons g s gs ss hs hss ih =>
      cases hss with
      | nil =>
          have hscan (part : Nat) : scanHx part (s ++ []) = g := scanHx_groupText hs (.inl rfl) part
          rw [List.append_nil] at hscan
          rw [List.intercalate_singleton]
          exact ⟨hscan, trivial⟩
      | cons hs' hss' =>
          rw [List.intercalate_cons_cons, List.append_assoc]
          refine ⟨scanHx_groupText hs (.inr rfl), ?_⟩
          rw [nextGroup_groupText hs]
          exact ih

theorem expandLoop_groupText {g : Nat} {s rest : List Char} (h : GroupText g s) (idx : Nat) (prev : Char)
    (colons : Nat) : ∃ idx' c, idx < idx' ∧ c ≠ ':' ∧
      expandLoop idx prev colons (s ++ rest) = s ++ expandLoop idx' c colons rest := by
  have hcolon := h.colon
  have hne := h.ne_nil
  clear h
  induction s generalizing idx prev with
  | nil => exact absurd rfl hne
  | cons c s ih =>
      have hc : c ≠ ':' := hcolon c List.mem_cons_self
      have hkeep : expandLoop idx prev colons (c :: s ++ rest) = c :: expandLoop (idx + 1) c colons (s ++ rest) := by
        rw [List.cons_append, expandLoop, if_neg (fun hdouble => hc hdouble.2.2)]
      cases hs : s with
      | nil =>
          rw [hs] at hkeep
          exact ⟨idx + 1, c, by omega, hc, hkeep⟩
      | cons d ds =>
          obtain ⟨idx', c', hless, hc', hrest⟩ :=
            ih (idx + 1) c (fun e he => hcolon e (List.mem_cons_of_mem _ he)) (by rw [hs]; exact List.cons_ne_nil _ _)
          refine ⟨idx', c', by omega, hc', ?_⟩
          rw [← hs, hkeep, hrest, List.cons_append]

/-- Joined groups stay as they are. -/
theorem expandLoop_joined {gs : List Nat} {ss : List (List Char)} (h : List.Forall₂ GroupText gs ss) (hne : gs ≠ [])
    (idx : Nat) (prev : Char) (colons : Nat) (rest : List Char) : ∃ idx' c, idx < idx' ∧ c ≠ ':' ∧
      expandLoop idx prev colons ([':'].intercalate ss ++ rest) =
        [':'].intercalate ss ++ expandLoop idx' c colons rest := by
  induction h generalizing idx prev with
  | nil => exact absurd rfl hne
  | @cons g s gs ss hs hss ih =>
      cases hss with
      | nil =>
          rw [List.intercalate_singleton]
          exact expandLoop_groupText hs idx prev colons
      | cons hs' hss' =>
          obtain ⟨idx₁, c₁, hless₁, hc₁, hfirst⟩ := expandLoop_groupText hs idx prev colons
          obtain ⟨idx₂, c₂, hless₂, hc₂, hrest⟩ := ih (List.cons_ne_nil _ _) (idx₁ + 1) ':'
          refine ⟨idx₂, c₂, by omega, hc₂, ?_⟩
          rw [List.intercalate_cons_cons, List.append_assoc, List.append_assoc, hfirst, List.singleton_append,
            expandLoop, if_neg (fun hdouble => hc₁ hdouble.2.1), hrest]
          simp

theorem count_joined {gs : List Nat} {ss : List (List Char)} (h : List.Forall₂ GroupText gs ss) :
    ([':'].intercalate ss).count ':' = gs.length - 1 := by
  induction h with
  | nil => rfl
  | @cons g s gs ss hs hss ih =>
      have hcount : s.count ':' = 0 := List.count_eq_zero.mpr (fun hmem => hs.colon _ hmem rfl)
      cases hss with
      | nil => rw [List.intercalate_singleton, hcount, List.length_singleton]
      | cons hs' hss' =>
          rw [List.intercalate_cons_cons, List.count_append, List.count_append, hcount, ih]
          simp only [List.count_singleton_self, List.length_cons]
          omega

theorem length_joined_le {gs : List Nat} {ss : List (List Char)} (h : List.Forall₂ GroupText gs ss) :
    ([':'].intercalate ss).length + 1 ≤ 5 * gs.length + (if gs = [] then 1 else 0) := by
  induction h with
  | nil => simp
  | @cons g s gs ss hs hss ih =>
      have hlen := hs.length_le
      cases hss with
      | nil =>
          rw [List.intercalate_singleton]
          simp
          omega
      | cons hs' hss' =>
          rw [List.intercalate_cons_cons, List.length_append, List.length_append]
          simp only [List.length_cons, List.length_nil, reduceCtorEq, if_false] at ih ⊢
          omega

theorem joined_append {ss ts : List (List Char)} (hss : ss ≠ []) (hts : ts ≠ []) :
    [':'].intercalate (ss ++ ts) = [':'].intercalate ss ++ ':' :: [':'].intercalate ts := by
  induction ss with
  | nil => exact absurd rfl hss
  | cons s ss ih =>
      cases ss with
      | nil => rw [List.singleton_append, List.intercalate_cons_of_ne_nil hts, List.intercalate_singleton,
          List.append_assoc, List.singleton_append]
      | cons s' ss =>
          have happ : s' :: ss ++ ts ≠ [] := List.cons_ne_nil _ _
          rw [List.cons_append, List.intercalate_cons_of_ne_nil happ, ih (List.cons_ne_nil _ _),
            List.intercalate_cons_cons, List.append_assoc _ ([':'].intercalate (s' :: ss))]

theorem joined_zeros (z : Nat) {ts : List (List Char)} (hts : ts ≠ []) :
    [':'].intercalate (List.replicate z ['0'] ++ ts) =
      (List.replicate z ['0', ':']).flatten ++ [':'].intercalate ts := by
  induction z with
  | zero => rfl
  | succ z ih =>
      have happ : List.replicate z ['0'] ++ ts ≠ [] := List.append_ne_nil_of_right_ne_nil _ hts
      rw [List.replicate_succ, List.cons_append, List.intercalate_cons_of_ne_nil happ, ih, List.replicate_succ,
        List.flatten_cons, List.append_assoc, List.append_assoc]
      rfl

theorem forall₂_zeros (z : Nat) : List.Forall₂ GroupText (List.replicate z 0) (List.replicate z ['0']) := by
  induction z with
  | zero => exact .nil
  | succ z ih => exact .cons groupText_zero ih

theorem joined_eq_nil_iff {gs : List Nat} {ss : List (List Char)} (h : List.Forall₂ GroupText gs ss) :
    [':'].intercalate ss = [] ↔ ss = [] := by
  cases h with
  | nil => simp
  | @cons g s gs ss hs hss =>
      have hne := hs.ne_nil
      cases hss with
      | nil => simp [hne]
      | cons => simp

/-- The double colon is replaced by as many zeros as there are groups missing. -/
theorem expandLoop_compressed {pre post : List Nat} {z : Nat} {ss ts : List (List Char)} (hpre : pre ≠ []) (hz : 0 < z)
    (hss : List.Forall₂ GroupText pre ss) (hts : List.Forall₂ GroupText post ts) {colons : Nat}
    (hcolons : colons = pre.length - 1 + 2 + (post.length - 1)) (hlen : pre.length + z + post.length = 8) :
    expandLoop 0 ' ' colons ([':'].intercalate ss ++ [':', ':'] ++ [':'].intercalate ts) =
      [':'].intercalate (ss ++ (List.replicate z ['0'] ++ ts)) := by
  have hprelen : 0 < pre.length := List.length_pos_of_ne_nil hpre
  have hss_ne : ss ≠ [] := List.ne_nil_of_length_pos (by rw [← hss.length_eq]; exact hprelen)
  have hmid : List.replicate z ['0'] ++ ts ≠ [] := by
    refine List.ne_nil_of_length_pos ?_
    rw [List.length_append, List.length_replicate]
    omega
  obtain ⟨idx, c, hidx, hc, hfirst⟩ := expandLoop_joined hss hpre 0 ' ' colons ([':', ':'] ++ [':'].intercalate ts)
  rw [List.append_assoc, hfirst, joined_append hss_ne hmid, List.append_cancel_left_eq]
  have hsecond : expandLoop idx c colons ([':', ':'] ++ [':'].intercalate ts) =
      ':' :: ((List.replicate (7 - (colons - 1)) ['0', ':']).flatten ++
        (if [':'].intercalate ts = [] then ['0'] else []) ++
        expandLoop (idx + 2) ':' (max 7 (colons - 1)) ([':'].intercalate ts)) := by
    rw [List.cons_append, expandLoop, if_neg (fun hdouble => hc hdouble.2.1), List.singleton_append, expandLoop,
      if_pos ⟨by omega, rfl, rfl⟩]
  rw [hsecond]
  congr 1
  cases hts with
  | nil =>
      obtain ⟨k, rfl⟩ : ∃ k, z = k + 1 := ⟨z - 1, by omega⟩
      have hzeros : 7 - (colons - 1) = k := by
        rw [List.length_nil] at hcolons hlen
        omega
      rw [hzeros, List.intercalate_nil, if_pos rfl, expandLoop, List.append_nil, List.append_nil, List.replicate_succ',
        joined_zeros k (List.cons_ne_nil _ _), List.intercalate_singleton]
  | @cons g t post ts ht hts =>
      have hts' : List.Forall₂ GroupText (g :: post) (t :: ts) := .cons ht hts
      have hjoined : [':'].intercalate (t :: ts) ≠ [] := fun hnil =>
        List.cons_ne_nil _ _ ((joined_eq_nil_iff hts').mp hnil)
      have hzeros : 7 - (colons - 1) = z := by
        rw [List.length_cons] at hcolons hlen
        omega
      obtain ⟨idx', c', -, -, hlast⟩ :=
        expandLoop_joined hts' (List.cons_ne_nil _ _) (idx + 2) ':' (max 7 (colons - 1)) []
      rw [List.append_nil, expandLoop, List.append_nil] at hlast
      rw [hzeros, if_neg hjoined, List.append_nil, hlast, joined_zeros z (List.cons_ne_nil _ _)]

/-- Any text of an address is expanded to all of its groups. -/
theorem expand_eq {gs : List Nat} {t : List Char} (h : AddressText gs t) (hlen : gs.length = 8)
    (hhead : gs.head? ≠ some 0) :
    ∃ ss, List.Forall₂ GroupText gs ss ∧ expand t = some ([':'].intercalate ss) := by
  have hroom {ss : List (List Char)} (hss : List.Forall₂ GroupText gs ss) : ([':'].intercalate ss).length ≤ 46 := by
    have hle := length_joined_le hss
    have hne : gs ≠ [] := List.ne_nil_of_length_pos (by omega)
    rw [hlen, if_neg hne] at hle
    omega
  cases h with
  | full ss hss =>
      have hne : gs ≠ [] := List.ne_nil_of_length_pos (by omega)
      obtain ⟨idx, c, -, -, hloop⟩ := expandLoop_joined hss hne 0 ' ' (([':'].intercalate ss).count ':') []
      rw [List.append_nil, expandLoop, List.append_nil] at hloop
      refine ⟨ss, hss, ?_⟩
      rw [expand, hloop, if_pos (hroom hss)]
  | compressed pre post z ss ts hgs hz hss hts =>
      have hpre : pre ≠ [] := by
        intro hnil
        obtain ⟨k, rfl⟩ : ∃ k, z = k + 1 := ⟨z - 1, by omega⟩
        rw [hgs, hnil, List.replicate_succ] at hhead
        exact hhead rfl
      have hsum : pre.length + z + post.length = 8 := by
        rw [← hlen, hgs, List.length_append, List.length_append, List.length_replicate]
      have hcount : ([':'].intercalate ss ++ [':', ':'] ++ [':'].intercalate ts).count ':' =
          pre.length - 1 + 2 + (post.length - 1) := by
        rw [List.count_append, List.count_append, count_joined hss, count_joined hts]
        rfl
      have hall : List.Forall₂ GroupText gs (ss ++ (List.replicate z ['0'] ++ ts)) := by
        rw [hgs, List.append_assoc]
        exact List.rel_append hss (List.rel_append (forall₂_zeros z) hts)
      refine ⟨_, hall, ?_⟩
      rw [expand, expandLoop_compressed hpre hz hss hts hcount hsum, if_pos (hroom hall)]

/-! ### There and back -/

theorem groupBits_groupsOf {l : List Bool} (h : l.length = 128) : groupBits (groupsOf l) = l := by
  have hsum : l.length = (List.replicate (l.length / 16) 16).sum := by
    rw [List.sum_replicate_nat, h]
  have hlen : (groupsOf l).length = l.length / 16 := by
    rw [groupsOf, length_unpack, List.length_replicate]
  rw [groupBits, hlen, groupsOf, pack_unpack hsum]

section Address

variable {args : List Nat}

theorem fits_components (h : Fits freeWidths args) : Fits widths (0xfcff :: 2 :: args) := by
  obtain ⟨ptype, pver, sys, pid, ts, rfl⟩ := fits_freeWidths h
  exact .cons (by decide) (.cons (by decide) h)

theorem length_components (h : Fits freeWidths args) : (pack widths (0xfcff :: 2 :: args)).length = 128 :=
  length_pack (fits_components h)

theorem length_address (h : Fits freeWidths args) : (address args).length = 8 := by
  rw [address, groupsOf, length_unpack, List.length_replicate, length_components h]

theorem lt_of_mem_address (h : Fits freeWidths args) : ∀ g ∈ address args, g < 2 ^ 16 := by
  have hlen := length_components h
  have hfits : Fits (List.replicate 8 16) (address args) := by
    rw [address, groupsOf, hlen]
    exact fits_unpack hlen
  exact hfits.lt_of_replicate

theorem head_address : (address args).head? = some 0xfcff := by
  have hpack : pack widths (0xfcff :: 2 :: args) = bitsOf 16 0xfcff ++ pack widths.tail (2 :: args) := rfl
  rw [address, hpack, groupsOf_append (length_bitsOf 16 0xfcff), ofBits_bitsOf]
  rfl

theorem addressText_address (h : Fits freeWidths args) : AddressText (address args) (groupsText (address args)) := by
  refine .full _ ?_
  rw [List.forall₂_map_right_iff, List.forall₂_same]
  intro g hg
  exact groupText_hex4 (lt_of_mem_address h g hg)

theorem getSisisAddrComponents_eq (h : Fits freeWidths args) {t : List Char} (ht : AddressText (address args) t) :
    getSisisAddrComponents t = some (0xfcff :: 2 :: args) := by
  have hhead : (address args).head? ≠ some 0 := by
    rw [head_address]
    decide
  obtain ⟨ss, hss, hexpand⟩ := expand_eq ht (length_address h) hhead
  have hwidths : ∀ c ∈ components.tail, 0 < c.bits ∧ c.bits ≤ 64 := by decide
  have hcut (l : List Bool) : cut [] [] 16 components.tail l = unpack widths l := rfl
  have hgets : Gets (0xfcff :: 2 :: args) ⟨0, components.tail, 16, 0, [], 0, [':'].intercalate ss⟩ [] (address args) := by
    refine ⟨hwidths, rfl, Nat.le_add_left 16 48, ?_, rfl, reads_joined hss, ?_⟩
    · simp only [length_address h]
    · simp only [Nat.zero_mod, Nat.sub_zero, Nat.mod_self, bitsOf, List.nil_append, hcut, address,
        groupBits_groupsOf (length_components h), unpack_pack (fits_components h)]
  rw [getSisisAddrComponents, hexpand, Option.bind_eq_bind, Option.bind_some]
  exact hgets.loop (Nat.lt_succ_self 128)

end Address

/-- The components of an address come back from every text of it, and other components have another address. -/
theorem roundTrip {args : List Nat} (h : Fits freeWidths args) :
    ∃ gs text, gs.length = 8 ∧ sisisCreateAddr args = some text ∧ AddressText gs text ∧
      (∀ t, AddressText gs t → getSisisAddrComponents t = some (0xfcff :: 2 :: args)) ∧
      ∀ args' text', Fits freeWidths args' → args' ≠ args → sisisCreateAddr args' = some text' →
        ¬ AddressText gs text' := by
  refine ⟨address args, groupsText (address args), length_address h, sisisCreateAddr_eq h, addressText_address h,
    fun t ht => getSisisAddrComponents_eq h ht, ?_⟩
  intro args' text' h' hne hcreate hsame
  obtain rfl : groupsText (address args') = text' := Option.some.inj ((sisisCreateAddr_eq h').symm.trans hcreate)
  have hget := getSisisAddrComponents_eq h hsame
  rw [getSisisAddrComponents_eq h' (addressText_address h')] at hget
  exact hne (by simpa using hget)

theorem roundTrip_of_five : ∃ gs text, gs.length = 8 ∧ sisisCreateAddr [5, 1, 3, 77, 12345] = some text ∧
    AddressText gs text ∧
    (∀ t, AddressText gs t → getSisisAddrComponents t = some (0xfcff :: 2 :: [5, 1, 3, 77, 12345])) ∧
    ∀ args' text', Fits freeWidths args' → args' ≠ [5, 1, 3, 77, 12345] → sisisCreateAddr args' = some text' →
      ¬ AddressText gs text' :=
  roundTrip (.cons (by decide) (.cons (by decide) (.cons (by decide) (.cons (by decide) (.cons (by decide) .nil)))))

end Harry.Sisis
