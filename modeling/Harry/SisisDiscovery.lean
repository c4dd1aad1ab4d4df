import Harry.SisisRoundTrip

/-! How processes find each other (`sisis.c` and `sisis_api.c`): the components that are known are written into an
address, and the host routes of the kernel that agree with it in the bits of these components are the processes. The
mask for that is written as text, too, and read with `inet_pton`. -/

namespace Harry.Sisis

open Harry.Base

/-- `struct in6_addr`. -/
structure In6Addr where
  s6addr : List UInt8
  length : s6addr.length = 16
  deriving DecidableEq

/-- The group of a text: one to four hexadecimal digits. -/
def groupOf (s : List Char) : Option Nat :=
  if s ≠ [] ∧ s.length ≤ 4 ∧ s.all (fun c => (hexVal c).isSome) = true then some (hexNumber s) else none

/-- The groups between single colons. -/
def groupsIn (text : List Char) : Option (List Nat) :=
  if text = [] then some [] else (text.splitOn ':').mapM groupOf

/-- The text before the first double colon and the text behind it. -/
def splitDouble : List Char → Option (List Char × List Char)
  | ':' :: ':' :: rest => some ([], rest)
  | c :: rest => (splitDouble rest).map (Prod.map (c :: ·) id)
  | [] => none

/-- The groups of an address; the double colon stands for one at least. -/
def ptonGroups (text : List Char) : Option (List Nat) :=
  match splitDouble text with
  | none => groupsIn text
  | some (before, behind) => do
    let pre ← groupsIn before
    let post ← groupsIn behind
    if pre.length + post.length < 8 then
      some (pre ++ List.replicate (8 - (pre.length + post.length)) 0 ++ post)
    else none

/-- Groups as bytes in the order of the network. -/
def groupBytes (gs : List Nat) : List UInt8 := gs.flatMap fun g => [(g / 256).toUInt8, g.toUInt8]

theorem length_groupBytes (gs : List Nat) : (groupBytes gs).length = 2 * gs.length := by
  induction gs with
  | nil => rfl
  | cons g gs ih =>
      rw [groupBytes, List.flatMap_cons, List.length_append, ← groupBytes, ih, List.length_cons]
      simp only [List.length_cons, List.length_nil]
      omega

/-- `inet_pton` with `AF_INET6`, of a text without a dotted quad. -/
def inetPton (text : List Char) : Option In6Addr := do
  let gs ← ptonGroups text
  if h : gs.length = 8 then some ⟨groupBytes gs, by rw [length_groupBytes, h]⟩ else none

/-- `struct prefix_ipv6`, and the routes of the kernel with it. -/
structure PrefixIpv6 where
  prefixlen : UInt8
  address : In6Addr
  deriving DecidableEq

/-- The bits of a last group: `tmp` is shifted to the right and its highest bit is set, once for each. -/
def maskPart (n : Nat) : Nat := (fun tmp => tmp >>> 1 ||| 0x8000)^[n] 0

/-- `prefix_addr_str` of a prefix length, up to 128. -/
def maskText (prefixlen : Nat) : List Char :=
  (if 0 < prefixlen / 16 then "ffff".toList else []) ++
    (List.replicate (prefixlen / 16 - 1) ":ffff".toList).flatten ++
    (if maskPart (prefixlen % 16) ≠ 0 then
      (if 16 < prefixlen then [':'] else []) ++ hex4 (maskPart (prefixlen % 16)) else []) ++
    (if prefixlen ≤ 96 then "::".toList else if prefixlen ≤ 112 then ":0".toList else [])

/-- Byte for byte, under the mask. -/
def matchesUnder (mask a b : In6Addr) : Bool :=
  List.zipWith (· &&& ·) a.s6addr mask.s6addr == List.zipWith (· &&& ·) b.s6addr mask.s6addr

/-- `get_sisis_addrs_for_prefix`, with the routes that `netlink_route_read` has put into `rib`. Without an address in
`prefix_mask` the loop would read what the stack held. -/
def getSisisAddrsForPrefix (rib : List PrefixIpv6) (p : PrefixIpv6) : Option (List In6Addr) := do
  let prefixMask ← inetPton (maskText p.prefixlen.toNat)
  some ((rib.filter fun route => matchesUnder prefixMask route.address p.address && route.prefixlen == 128).map
    PrefixIpv6.address)

/-- `sisis_make_ipv6_prefix`. -/
def sisisMakeIpv6Prefix (addr : List Char) (prefixLen : Nat) : Option PrefixIpv6 :=
  (inetPton addr).map (PrefixIpv6.mk prefixLen.toUInt8)

/-- What the functions below have in common. -/
def sisisAddrs (rib : List PrefixIpv6) (args : List Nat) (prefixLen : Nat) : Option (List In6Addr) := do
  let addr ← sisisCreateAddr args
  let p ← sisisMakeIpv6Prefix addr prefixLen
  getSisisAddrsForPrefix rib p

/-- `get_processes_by_type_version`. -/
def getProcessesByTypeVersion (rib : List PrefixIpv6) (processType processVersion : Nat) : Option (List In6Addr) :=
  sisisAddrs rib [processType, processVersion, 0, 0, 0] 42

/-- `get_process_type_version_count`. -/
def getProcessTypeVersionCount (rib : List PrefixIpv6) (processType processVersion : Nat) : Option Nat :=
  (sisisAddrs rib [processType, processVersion, 0, 0, 0] 42).map List.length

/-- `number_of_sisis_addrs_for_process_type`. -/
def numberOfSisisAddrsForProcessType (rib : List PrefixIpv6) (ptype : Nat) : Option Nat :=
  (sisisAddrs rib [ptype, 0, 0, 0, 0] 37).map List.length

/-- `SISIS_PTYPE_CTRL`, `SISIS_PTYPE_OSPF6_SBLING` and `PTYPE_VERSION`. -/
def ptypeCtrl : Nat := 11
def ptypeOspf6Sbling : Nat := 12
def ptypeVersion : Nat := 1

/-- A list that is not empty, and else null. -/
def nonEmpty (addrs : List In6Addr) : Option (List In6Addr) := if addrs = [] then none else some addrs

/-- `get_ctrl_addrs`. -/
def getCtrlAddrs (rib : List PrefixIpv6) : Option (Option (List In6Addr)) :=
  (sisisAddrs rib [ptypeCtrl, 0, 0, 0, 0] 37).map nonEmpty

/-- `get_ctrl_addrs_for_hostnum`. -/
def getCtrlAddrsForHostnum (rib : List PrefixIpv6) (hostnum : Nat) : Option (List In6Addr) :=
  sisisAddrs rib [ptypeCtrl, ptypeVersion, hostnum, 0, 0] 74

/-- `get_ospf6_sibling_addrs`. -/
def getOspf6SiblingAddrs (rib : List PrefixIpv6) : Option (Option (List In6Addr)) :=
  (sisisAddrs rib [ptypeOspf6Sbling, 0, 0, 0, 0] 37).map nonEmpty

theorem groupOf_groupText {g : Nat} {s : List Char} (h : GroupText g s) : groupOf s = some g := by
  rw [groupOf, if_pos ⟨h.ne_nil, h.length_le, List.all_eq_true.mpr h.digits⟩, h.value]

theorem groupsIn_joined {gs : List Nat} {ss : List (List Char)} (h : List.Forall₂ GroupText gs ss) :
    groupsIn ([':'].intercalate ss) = some gs := by
  by_cases hss : ss = []
  · rw [hss] at h
    cases h
    rw [hss]
    rfl
  · have hcolon : ∀ s ∈ ss, ':' ∉ s := by
      intro s hs hmem
      obtain ⟨i, hi, rfl⟩ := List.getElem_of_mem hs
      exact (h.get (h.length_eq ▸ hi) hi).colon ':' hmem rfl
    have hmap : ss.mapM groupOf = some gs := by
      clear hss hcolon
      induction h with
      | nil => rfl
      | cons hs _ ih => rw [List.mapM_cons, groupOf_groupText hs, ih, Option.bind_eq_bind, Option.bind_some]; rfl
    rw [groupsIn, if_neg (fun hnil => hss ((joined_eq_nil_iff h).mp hnil)), List.splitOn_intercalate _ hcolon hss, hmap]

theorem splitDouble_cons {c : Char} (hc : c ≠ ':') (rest : List Char) :
    splitDouble (c :: rest) = (splitDouble rest).map (Prod.map (c :: ·) id) := by
  rw [splitDouble]
  intro rest' heq
  exact absurd heq hc

theorem splitDouble_colon {c : Char} (hc : c ≠ ':') (rest : List Char) :
    splitDouble (':' :: c :: rest) = (splitDouble (c :: rest)).map (Prod.map (':' :: ·) id) := by
  rw [splitDouble]
  intro rest' _ heq
  exact absurd (List.cons.inj heq).1 hc

theorem splitDouble_append {s : List Char} (h : ∀ c ∈ s, c ≠ ':') (rest : List Char) :
    splitDouble (s ++ rest) = (splitDouble rest).map (Prod.map (s ++ ·) id) := by
  induction s with
  | nil =>
      rw [List.nil_append]
      cases splitDouble rest <;> rfl
  | cons c s ih =>
      obtain ⟨hc, hs⟩ := List.forall_mem_cons.mp h
      rw [List.cons_append, splitDouble_cons hc, ih hs, Option.map_map]
      rfl

/-- There is no double colon in joined groups. -/
theorem splitDouble_joined {gs : List Nat} {ss : List (List Char)} (h : List.Forall₂ GroupText gs ss)
    (rest : List Char) :
    splitDouble ([':'].intercalate ss ++ rest) = (splitDouble rest).map (Prod.map ([':'].intercalate ss ++ ·) id) := by
  induction h with
  | nil =>
      rw [List.intercalate_nil, List.nil_append]
      cases splitDouble rest <;> rfl
  | @cons g s gs ss hs hss ih =>
      cases hss with
      | nil =>
          rw [List.intercalate_singleton]
          exact splitDouble_append hs.colon rest
      | @cons g' s' gs ss hs' hss' =>
          obtain ⟨c, t, rfl⟩ := List.exists_cons_of_ne_nil hs'.ne_nil
          have hc : c ≠ ':' := hs'.colon c List.mem_cons_self
          obtain ⟨cs, hcs⟩ : ∃ cs, [':'].intercalate ((c :: t) :: ss) = c :: cs := by
            cases ss with
            | nil => exact ⟨t, List.intercalate_singleton⟩
            | cons s'' ss => exact ⟨t ++ [':'] ++ [':'].intercalate (s'' :: ss), List.intercalate_cons_cons⟩
          have hstep : splitDouble (':' :: ([':'].intercalate ((c :: t) :: ss) ++ rest)) =
              (splitDouble ([':'].intercalate ((c :: t) :: ss) ++ rest)).map (Prod.map (':' :: ·) id) := by
            rw [hcs]
            exact splitDouble_colon hc _
          rw [List.intercalate_cons_cons, List.append_assoc, List.append_assoc, splitDouble_append hs.colon,
            List.singleton_append, hstep, ih, Option.map_map, Option.map_map]
          congr 1
          funext q
          simp only [Function.comp_apply, Prod.map, id_eq, List.append_assoc, List.nil_append, List.cons_append]

/-- The groups of any text of an address are read. -/
theorem ptonGroups_eq {gs : List Nat} {t : List Char} (h : AddressText gs t) (hlen : gs.length = 8) :
    ptonGroups t = some gs := by
  cases h with
  | full ss hss =>
      have hsplit := splitDouble_joined hss []
      rw [List.append_nil, splitDouble, Option.map_none] at hsplit
      rw [ptonGroups, hsplit]
      exact groupsIn_joined hss
  | compressed pre post z ss ts hgs hz hss hts =>
      have hsum : pre.length + z + post.length = 8 := by
        rw [← hlen, hgs, List.length_append, List.length_append, List.length_replicate]
      have hsplit := splitDouble_joined hss ([':', ':'] ++ [':'].intercalate ts)
      have hdouble : splitDouble ([':', ':'] ++ [':'].intercalate ts) = some ([], [':'].intercalate ts) := rfl
      have hz' : 8 - (pre.length + post.length) = z := by omega
      rw [hdouble, Option.map_some, ← List.append_assoc] at hsplit
      rw [ptonGroups, hsplit]
      simp only [Prod.map, List.append_nil, id_eq, groupsIn_joined hss, groupsIn_joined hts, Option.bind_eq_bind,
        Option.bind_some, hz']
      rw [if_pos (by omega), hgs]

theorem byteBits_groupBytes (gs : List Nat) : byteBits (groupBytes gs) = groupBits gs := by
  induction gs with
  | nil => rfl
  | cons g gs ih =>
      have hcons : groupBytes (g :: gs) = [(g / 256).toUInt8, g.toUInt8] ++ groupBytes gs := rfl
      have hbits : groupBits (g :: gs) = bitsOf 16 g ++ groupBits gs := rfl
      have hbyte (x : Nat) : bitsOf 8 x.toUInt8.toNat = bitsOf 8 x := bitsOf_inj.mpr (Nat.mod_mod _ _)
      have htwo (a b : UInt8) : byteBits [a, b] = bitsOf 8 a.toNat ++ bitsOf 8 b.toNat := by
        simp [byteBits]
      rw [hcons, byteBits_append, htwo, hbyte, hbyte, ih, hbits, bitsOf_add 8 8 g, Nat.shiftRight_eq_div_pow]

theorem In6Addr.ext_bits {a b : In6Addr} (h : byteBits a.s6addr = byteBits b.s6addr) : a = b := by
  rw [In6Addr.mk.injEq]
  exact (byteBits_inj (a.length.trans b.length.symm)).mp h

theorem length_bits (a : In6Addr) : (byteBits a.s6addr).length = 128 := by
  rw [length_byteBits, a.length]

theorem inetPton_eq {gs : List Nat} {t : List Char} (h : AddressText gs t) (hlen : gs.length = 8) :
    ∃ a, inetPton t = some a ∧ byteBits a.s6addr = groupBits gs := by
  refine ⟨⟨groupBytes gs, by rw [length_groupBytes, hlen]⟩, ?_, byteBits_groupBytes gs⟩
  rw [inetPton, ptonGroups_eq h hlen, Option.bind_eq_bind, Option.bind_some, dif_pos hlen]

theorem groupBits_append (gs hs : List Nat) : groupBits (gs ++ hs) = groupBits gs ++ groupBits hs := by
  induction gs with
  | nil => rfl
  | cons g gs ih =>
      have hcons (gs : List Nat) : groupBits (g :: gs) = bitsOf 16 g ++ groupBits gs := rfl
      rw [List.cons_append, hcons, hcons, ih, List.append_assoc]

theorem groupBits_replicate {g : Nat} {b : Bool} (h : bitsOf 16 g = List.replicate 16 b) (k : Nat) :
    groupBits (List.replicate k g) = List.replicate (16 * k) b := by
  induction k with
  | zero => rfl
  | succ k ih =>
      have hcons : groupBits (List.replicate (k + 1) g) = bitsOf 16 g ++ groupBits (List.replicate k g) := rfl
      rw [hcons, ih, h, List.replicate_append_replicate, Nat.mul_succ, Nat.add_comm]

/-! ### The mask -/

theorem maskPart_spec {r : Nat} (hr : r < 16) : maskPart r < 2 ^ 16 ∧ (maskPart r = 0 ↔ r = 0) ∧
    bitsOf 16 (maskPart r) = List.replicate r true ++ List.replicate (16 - r) false := by
  have hall : ∀ r < 16, maskPart r < 2 ^ 16 ∧ (maskPart r = 0 ↔ r = 0) ∧
      bitsOf 16 (maskPart r) = List.replicate r true ++ List.replicate (16 - r) false := by
    decide
  exact hall r hr

/-- The groups of a mask up to its last bit. -/
def maskGroups (n : Nat) : List Nat :=
  List.replicate (n / 16) 0xffff ++ if n % 16 = 0 then [] else [maskPart (n % 16)]

/-- Their texts. -/
def maskTexts (n : Nat) : List (List Char) :=
  List.replicate (n / 16) "ffff".toList ++ if n % 16 = 0 then [] else [hex4 (maskPart (n % 16))]

section Mask

variable {n : Nat}

theorem forall₂_mask (n : Nat) : List.Forall₂ GroupText (maskGroups n) (maskTexts n) := by
  have hffff : GroupText 0xffff "ffff".toList := groupText_hex4 (g := 0xffff) (by decide)
  refine List.rel_append ?_ ?_
  · induction n / 16 with
    | zero => exact .nil
    | succ k ih => exact .cons hffff ih
  · by_cases hr : n % 16 = 0
    · rw [if_pos hr, if_pos hr]
      exact .nil
    · rw [if_neg hr, if_neg hr]
      exact .cons (groupText_hex4 (maskPart_spec (Nat.mod_lt n (by decide))).1) .nil

theorem length_maskGroups (n : Nat) : (maskGroups n).length = (n + 15) / 16 := by
  rw [maskGroups, List.length_append, List.length_replicate]
  by_cases hr : n % 16 = 0
  · rw [if_pos hr, List.length_nil]
    omega
  · rw [if_neg hr, List.length_singleton]
    omega

theorem groupBits_maskGroups (n : Nat) :
    groupBits (maskGroups n) = List.replicate n true ++ List.replicate (16 * ((n + 15) / 16) - n) false := by
  rw [maskGroups, groupBits_append, groupBits_replicate (b := true) (by decide)]
  by_cases hr : n % 16 = 0
  · have hn : 16 * (n / 16) = n := by omega
    have hrest : 16 * ((n + 15) / 16) - n = 0 := by omega
    rw [if_pos hr, hn, hrest]
    rfl
  · have hlast : groupBits [maskPart (n % 16)] = bitsOf 16 (maskPart (n % 16)) := List.append_nil _
    have hrest : 16 - n % 16 = 16 * ((n + 15) / 16) - n := by omega
    rw [if_neg hr, hlast, (maskPart_spec (Nat.mod_lt n (by decide))).2.2, ← List.append_assoc,
      List.replicate_append_replicate, Nat.div_add_mod, hrest]

theorem joined_ffff (k : Nat) : [':'].intercalate (List.replicate k "ffff".toList) =
    (if 0 < k then "ffff".toList else []) ++ (List.replicate (k - 1) ":ffff".toList).flatten := by
  induction k with
  | zero => rfl
  | succ k ih =>
      by_cases hk : k = 0
      · subst hk
        rfl
      · rw [List.replicate_succ', joined_append (by simp [hk]) (List.cons_ne_nil _ _), ih, List.intercalate_singleton,
          if_pos (Nat.pos_of_ne_zero hk), if_pos (Nat.succ_pos k), List.append_assoc]
        obtain ⟨j, rfl⟩ := Nat.exists_eq_succ_of_ne_zero hk
        rw [Nat.succ_sub_one, Nat.succ_sub_one, List.replicate_succ', List.flatten_append]
        rfl

/-- The text of a mask: its groups, and what stands for the zeros. -/
theorem maskText_eq (n : Nat) : maskText n = [':'].intercalate (maskTexts n) ++
    if n ≤ 96 then "::".toList else if n ≤ 112 then ":0".toList else [] := by
  rw [maskText, ← joined_ffff]
  congr 1
  by_cases hr : n % 16 = 0
  · have hpart := (maskPart_spec (Nat.mod_lt n (by decide))).2.1.mpr hr
    rw [maskTexts, if_pos hr, if_neg (not_not.mpr hpart), List.append_nil, List.append_nil]
  · have hpart := mt (maskPart_spec (Nat.mod_lt n (by decide))).2.1.mp hr
    rw [maskTexts, if_neg hr, if_pos hpart]
    by_cases hq : n / 16 = 0
    · rw [hq, if_neg (by omega), List.replicate_zero, List.nil_append, List.nil_append, List.intercalate_singleton,
        List.intercalate_nil]
      rfl
    · rw [joined_append (by simp [hq]) (List.cons_ne_nil _ _), if_pos (by omega), List.intercalate_singleton]
      rfl

theorem addressText_mask (hn : n ≤ 128) :
    AddressText (maskGroups n ++ List.replicate (8 - (n + 15) / 16) 0) (maskText n) := by
  have htexts := forall₂_mask n
  rw [maskText_eq]
  by_cases h96 : n ≤ 96
  · rw [if_pos h96]
    have hshort := AddressText.compressed (maskGroups n) [] (8 - (n + 15) / 16) _ [] (List.append_nil _).symm (by omega)
      htexts .nil
    rwa [List.intercalate_nil, List.append_nil] at hshort
  by_cases h112 : n ≤ 112
  · have hrest : 8 - (n + 15) / 16 = 1 := by omega
    have hne : maskTexts n ≠ [] := by
      intro hnil
      have hlength := htexts.length_eq
      rw [hnil, length_maskGroups, List.length_nil] at hlength
      omega
    have hfull := AddressText.full _ (List.rel_append htexts (.cons groupText_zero .nil))
    rw [joined_append hne (List.cons_ne_nil _ _), List.intercalate_singleton] at hfull
    rw [if_neg h96, if_pos h112, hrest]
    exact hfull
  · have hrest : 8 - (n + 15) / 16 = 0 := by omega
    rw [if_neg h96, if_neg h112, hrest, List.replicate_zero, List.append_nil, List.append_nil]
    exact .full _ htexts

/-- The mask has the bits of the prefix length. -/
theorem inetPton_maskText (hn : n ≤ 128) : ∃ mask, inetPton (maskText n) = some mask ∧
    byteBits mask.s6addr = List.replicate n true ++ List.replicate (128 - n) false := by
  obtain ⟨mask, hpton, hbits⟩ := inetPton_eq (addressText_mask hn) (by
    rw [List.length_append, length_maskGroups, List.length_replicate]
    omega)
  have hrest : 16 * ((n + 15) / 16) - n + 16 * (8 - (n + 15) / 16) = 128 - n := by omega
  refine ⟨mask, hpton, ?_⟩
  rw [hbits, groupBits_append, groupBits_maskGroups, groupBits_replicate (b := false) (by decide), List.append_assoc,
    List.replicate_append_replicate, hrest]

end Mask

theorem matchesUnder_iff {mask : In6Addr} {n : Nat} (hn : n ≤ 128)
    (hmask : byteBits mask.s6addr = List.replicate n true ++ List.replicate (128 - n) false) (a b : In6Addr) :
    matchesUnder mask a b = true ↔ (byteBits a.s6addr).take n = (byteBits b.s6addr).take n := by
  have hlen (c : In6Addr) : (List.zipWith (· &&& ·) c.s6addr mask.s6addr).length = 16 := by
    rw [List.length_zipWith, c.length, mask.length, Nat.min_self]
  have hbits (c : In6Addr) : byteBits (List.zipWith (· &&& ·) c.s6addr mask.s6addr) =
      (byteBits c.s6addr).take n ++ List.replicate (128 - n) false := by
    rw [byteBits_and, hmask, zipWith_and_mask]
    rw [length_bits]
    omega
  rw [matchesUnder, beq_iff_eq, ← byteBits_inj ((hlen a).trans (hlen b).symm), hbits, hbits, List.append_left_inj]

/-- The components of an address. -/
def In6Addr.components (a : In6Addr) : List Nat := unpack widths (byteBits a.s6addr)

/-- A host route to an address with these first components. -/
def PrefixIpv6.Agrees (k : Nat) (vs : List Nat) (route : PrefixIpv6) : Prop :=
  route.prefixlen = 128 ∧ route.address.components.take k = vs.take k

instance (k : Nat) (vs : List Nat) : DecidablePred (PrefixIpv6.Agrees k vs) :=
  fun _ => inferInstanceAs (Decidable (_ ∧ _))

theorem getSisisAddrsForPrefix_eq (rib : List PrefixIpv6) (p : PrefixIpv6) (hlen : p.prefixlen.toNat ≤ 128) :
    getSisisAddrsForPrefix rib p = some ((rib.filter fun route => route.prefixlen = 128 ∧
      (byteBits route.address.s6addr).take p.prefixlen.toNat =
        (byteBits p.address.s6addr).take p.prefixlen.toNat).map PrefixIpv6.address) := by
  obtain ⟨mask, hpton, hmask⟩ := inetPton_maskText hlen
  have hsame (route : PrefixIpv6) : (matchesUnder mask route.address p.address && route.prefixlen == 128) =
      decide (route.prefixlen = 128 ∧ (byteBits route.address.s6addr).take p.prefixlen.toNat =
        (byteBits p.address.s6addr).take p.prefixlen.toNat) := by
    rw [Bool.eq_iff_iff, Bool.and_eq_true, decide_eq_true_iff, matchesUnder_iff hlen hmask, beq_iff_eq, and_comm]
  rw [getSisisAddrsForPrefix, hpton, Option.bind_eq_bind, Option.bind_some]
  simp only [hsame]

section Found

variable {args : List Nat}

/-- The text of an address is read back as its components. -/
theorem inetPton_created (h : Fits freeWidths args) : ∃ a, inetPton (groupsText (address args)) = some a ∧
    byteBits a.s6addr = pack widths (0xfcff :: 2 :: args) := by
  obtain ⟨a, hpton, hbits⟩ := inetPton_eq (addressText_address h) (length_address h)
  rw [address, groupBits_groupsOf (length_components h)] at hbits
  exact ⟨a, hpton, hbits⟩

/-- The host routes with the first `k` components are found, in the order of the table. -/
theorem sisisAddrs_eq (h : Fits freeWidths args) (rib : List PrefixIpv6) (k : Nat) :
    sisisAddrs rib args (widths.take k).sum =
      some ((rib.filter (PrefixIpv6.Agrees k (0xfcff :: 2 :: args) ·)).map PrefixIpv6.address) := by
  obtain ⟨a, hpton, hbits⟩ := inetPton_created h
  have hle : (widths.take k).sum ≤ 128 := sum_take_le widths k
  have hbyte : (widths.take k).sum.toUInt8.toNat = (widths.take k).sum := Nat.mod_eq_of_lt (by omega)
  have hcomps : a.components = 0xfcff :: 2 :: args := by
    rw [In6Addr.components, hbits, unpack_pack (fits_components h)]
  have hagree (route : PrefixIpv6) : (byteBits route.address.s6addr).take (widths.take k).sum =
      (byteBits a.s6addr).take (widths.take k).sum ↔
        route.address.components.take k = (0xfcff :: 2 :: args).take k := by
    rw [take_eq_take_iff_unpack (length_bits _) (length_bits _), ← In6Addr.components, ← In6Addr.components, hcomps]
  rw [sisisAddrs, sisisCreateAddr_eq h, Option.bind_eq_bind, Option.bind_some, sisisMakeIpv6Prefix, hpton,
    Option.map_some, Option.bind_eq_bind, Option.bind_some, getSisisAddrsForPrefix_eq _ _ (by rw [hbyte]; exact hle)]
  refine congrArg (fun found => some (found.map PrefixIpv6.address)) (List.filter_congr fun route _ => ?_)
  rw [decide_eq_decide, hbyte, hagree, PrefixIpv6.Agrees]

/-- The address that a process with these components has. -/
theorem created_iff (h : Fits freeWidths args) (a : In6Addr) :
    (sisisCreateAddr args).bind inetPton = some a ↔ a.components = 0xfcff :: 2 :: args := by
  obtain ⟨b, hpton, hbits⟩ := inetPton_created h
  have hb : b.components = 0xfcff :: 2 :: args := by
    rw [In6Addr.components, hbits, unpack_pack (fits_components h)]
  rw [sisisCreateAddr_eq h, Option.bind_some, hpton, Option.some.injEq]
  constructor
  · rintro rfl
    exact hb
  · intro ha
    have hbits : unpack widths (byteBits b.s6addr) = unpack widths (byteBits a.s6addr) := hb.trans ha.symm
    exact In6Addr.ext_bits ((unpack_inj (length_bits b) (length_bits a)).mp hbits)

/-- An address whose first two components are fixed as they should be is that of a process. -/
theorem exists_created {a : In6Addr} {k : Nat} (ha : a.components.take (k + 2) = (0xfcff :: 2 :: args).take (k + 2)) :
    ∃ args', Fits freeWidths args' ∧ args'.take k = args.take k ∧ a.components = 0xfcff :: 2 :: args' := by
  have hfits : Fits widths a.components := fits_unpack (length_bits a)
  cases hc : a.components with
  | nil =>
      rw [hc] at ha
      exact absurd ha (by simp)
  | cons v vs =>
      cases vs with
      | nil =>
          rw [hc] at ha
          exact absurd ha (by simp)
      | cons w args' =>
          rw [hc] at ha hfits
          simp only [List.take_succ_cons, List.cons.injEq] at ha
          obtain ⟨rfl, rfl, hargs⟩ := ha
          cases hfits with
          | cons _ hfits =>
              cases hfits with
              | cons _ hfits => exact ⟨args', hfits, hargs, rfl⟩

theorem components_of_text (h : Fits freeWidths args) {a : In6Addr} (ha : a.components = 0xfcff :: 2 :: args)
    {t : List Char} (ht : AddressText (groupsOf (byteBits a.s6addr)) t) :
    getSisisAddrComponents t = some (0xfcff :: 2 :: args) := by
  refine getSisisAddrComponents_eq h ?_
  rwa [address, ← ha, In6Addr.components, pack_unpack (length_bits a)]

end Found

theorem fits_known (ptype pver sys : Nat) (hptype : ptype < 2 ^ 16) (hpver : pver < 2 ^ 5) (hsys : sys < 2 ^ 32) :
    Fits freeWidths [ptype, pver, sys, 0, 0] :=
  .cons hptype (.cons hpver (.cons hsys (.cons (by decide) (.cons (by decide) .nil))))

theorem numberOfSisisAddrsForProcessType_eq {ptype : Nat} (h : ptype < 2 ^ 16) (rib : List PrefixIpv6) :
    numberOfSisisAddrsForProcessType rib ptype =
      some (rib.countP (PrefixIpv6.Agrees 3 [0xfcff, 2, ptype] ·)) := by
  have hfound := sisisAddrs_eq (fits_known ptype 0 0 h (by decide) (by decide)) rib 3
  have hsum : (widths.take 3).sum = 37 := rfl
  rw [hsum] at hfound
  rw [numberOfSisisAddrsForProcessType, hfound, Option.map_some, List.length_map, List.countP_eq_length_filter]
  rfl

theorem getProcessTypeVersionCount_eq {ptype pver : Nat} (h : ptype < 2 ^ 16) (h' : pver < 2 ^ 5)
    (rib : List PrefixIpv6) :
    getProcessTypeVersionCount rib ptype pver =
      some (rib.countP (PrefixIpv6.Agrees 4 [0xfcff, 2, ptype, pver] ·)) := by
  have hfound := sisisAddrs_eq (fits_known ptype pver 0 h h' (by decide)) rib 4
  have hsum : (widths.take 4).sum = 42 := rfl
  rw [hsum] at hfound
  rw [getProcessTypeVersionCount, hfound, Option.map_some, List.length_map, List.countP_eq_length_filter]
  rfl

theorem getCtrlAddrsForHostnum_eq {hostnum : Nat} (h : hostnum < 2 ^ 32) (rib : List PrefixIpv6) :
    getCtrlAddrsForHostnum rib hostnum =
      some ((rib.filter (PrefixIpv6.Agrees 5 [0xfcff, 2, ptypeCtrl, ptypeVersion, hostnum] ·)).map
        PrefixIpv6.address) :=
  sisisAddrs_eq (fits_known ptypeCtrl ptypeVersion hostnum (by decide) (by decide) h) rib 5

/-- There are siblings to connect to if one of them is in the table. -/
theorem getOspf6SiblingAddrs_eq (rib : List PrefixIpv6) :
    getOspf6SiblingAddrs rib = some (nonEmpty ((rib.filter
      (PrefixIpv6.Agrees 3 [0xfcff, 2, ptypeOspf6Sbling] ·)).map PrefixIpv6.address)) := by
  have hfound := sisisAddrs_eq (fits_known ptypeOspf6Sbling 0 0 (by decide) (by decide) (by decide)) rib 3
  rw [getOspf6SiblingAddrs]
  exact congrArg (Option.map nonEmpty) hfound

/-- The processes with the first components of `args` are found, and nothing else: what is found are the addresses of
the host routes that `sisis_create_addr` makes of arguments with these components, each as often as there are such
routes, and `get_sisis_addr_components` tells the components from any text of them. -/
theorem processes_found {args : List Nat} (h : Fits freeWidths args) (rib : List PrefixIpv6) (k : Nat) :
    ∃ found, sisisAddrs rib args (widths.take (k + 2)).sum = some found ∧
      found.Sublist (rib.map PrefixIpv6.address) ∧
      (∀ a ∈ found, found.count a = rib.count ⟨128, a⟩) ∧
      ∀ a, a ∈ found ↔ ⟨128, a⟩ ∈ rib ∧ ∃ args', Fits freeWidths args' ∧ args'.take k = args.take k ∧
        (sisisCreateAddr args').bind inetPton = some a ∧
        ∀ t, AddressText (groupsOf (byteBits a.s6addr)) t → getSisisAddrComponents t = some (0xfcff :: 2 :: args') := by
  have hmem (a : In6Addr) : a ∈ (rib.filter (PrefixIpv6.Agrees (k + 2) (0xfcff :: 2 :: args) ·)).map
      PrefixIpv6.address ↔ ⟨128, a⟩ ∈ rib ∧ a.components.take (k + 2) = (0xfcff :: 2 :: args).take (k + 2) := by
    simp only [List.mem_map, List.mem_filter, decide_eq_true_iff]
    constructor
    · rintro ⟨⟨_, a⟩, ⟨hrib, rfl, hagree⟩, rfl⟩
      exact ⟨hrib, hagree⟩
    · rintro ⟨hrib, hagree⟩
      exact ⟨⟨128, a⟩, ⟨hrib, rfl, hagree⟩, rfl⟩
  refine ⟨_, sisisAddrs_eq h rib (k + 2), List.filter_sublist.map _, ?_, ?_⟩
  · intro a ha
    rw [List.count_eq_countP, List.countP_map, List.countP_filter, List.count_eq_countP]
    refine List.countP_congr fun route _ => ?_
    obtain ⟨-, hagree⟩ := (hmem a).mp ha
    rw [Bool.and_eq_true, decide_eq_true_iff, beq_iff_eq, Function.comp_apply, beq_iff_eq]
    constructor
    · rintro ⟨rfl, hlen, -⟩
      rw [PrefixIpv6.mk.injEq]
      exact ⟨hlen, rfl⟩
    · rintro rfl
      exact ⟨rfl, rfl, hagree⟩
  · intro a
    rw [hmem]
    refine and_congr_right fun _ => ⟨fun ha => ?_, ?_⟩
    · obtain ⟨args', hfits, hargs, hcomps⟩ := exists_created ha
      exact ⟨args', hfits, hargs, (created_iff hfits a).mpr hcomps, fun t ht => components_of_text hfits hcomps ht⟩
    · rintro ⟨args', hfits, hargs, hcreated, -⟩
      rw [(created_iff hfits a).mp hcreated]
      simp only [List.take_succ_cons, hargs]

theorem processes_found_of_host : ∃ found,
    sisisAddrs [⟨128, ⟨[252, 255, 16, 0, 88, 64, 0, 0, 1, 64, 0, 77, 0, 0, 48, 57], rfl⟩⟩] [11, 1, 5, 0, 0] 74 =
      some found ∧
    ∀ a, a ∈ found ↔ (⟨128, a⟩ : PrefixIpv6) ∈
        [⟨128, ⟨[252, 255, 16, 0, 88, 64, 0, 0, 1, 64, 0, 77, 0, 0, 48, 57], rfl⟩⟩] ∧
      ∃ args', Fits freeWidths args' ∧ args'.take 3 = [11, 1, 5] ∧ (sisisCreateAddr args').bind inetPton = some a ∧
        ∀ t, AddressText (groupsOf (byteBits a.s6addr)) t →
          getSisisAddrComponents t = some (0xfcff :: 2 :: args') := by
  obtain ⟨found, hfound, -, -, hmem⟩ := processes_found
    (fits_known 11 1 5 (by decide) (by decide) (by decide))
    [⟨128, ⟨[252, 255, 16, 0, 88, 64, 0, 0, 1, 64, 0, 77, 0, 0, 48, 57], rfl⟩⟩] 3
  exact ⟨found, hfound, hmem⟩

end Harry.Sisis
