import Mathlib.Data.List.Range
import Mathlib.Data.Nat.Bitwise
import Mathlib.Logic.Function.Basic
import Harry.BaseRadix

/-! `lib/prefix.c` and the bits that `lib/table.c` reads: a prefix is a length and the bytes of an address, and its key
is the string of the bits within the length. What is behind the length, in the same byte or after it, may be anything.
`prefix_match` is `<+:` on the keys (`prefixMatch_iff`), `prefix_bit` reads a bit of the key (`bitAt_key`), and the byte
loop and the mask loop of `route_common` stop where two keys part (`key_routeCommon`). -/

namespace Harry.Table

open Harry.Base

/-- The families that `prefix_copy` knows. -/
inductive Family where
  | unspec
  | inet
  | inet6
  deriving DecidableEq, Repr

/-- The number of bytes of an address. -/
def Family.bytes : Family → Nat
  | .unspec => 8
  | .inet => 4
  | .inet6 => 16

/-- `struct prefix`. `u` is the memory from the first byte of the address on. -/
structure Prefix where
  family : Family
  prefixlen : Nat
  u : Nat → UInt8

/-- `maskbit` of `prefix.c` and of `table.c`. -/
def maskbit : List UInt8 :=
  [0x00, 0x80, 0xc0, 0xe0, 0xf0, 0xf8, 0xfc, 0xfe, 0xff]

/-- The loop of `prefix_match` over whole bytes, from the last one to the first. -/
def sameBytes (np pp : Nat → UInt8) : Nat → Bool
  | 0 => true
  | offset + 1 => if np offset ≠ pp offset then false else sameBytes np pp offset

/-- `prefix_match`. -/
def prefixMatch (n p : Prefix) : Bool :=
  if n.prefixlen > p.prefixlen then false
  else
    let offset := n.prefixlen / 8
    let shift := n.prefixlen % 8
    if shift ≠ 0 ∧ maskbit.getD shift 0 &&& (n.u offset ^^^ p.u offset) ≠ 0 then false
    else sameBytes n.u p.u offset

/-- `prefix_bit`, an index into `link`. -/
def prefixBit (u : Nat → UInt8) (prefixlen : Nat) : Bool :=
  let offset := prefixlen / 8
  let shift := 7 - prefixlen % 8
  (u offset >>> UInt8.ofNat shift) &&& 1 = 1

/-- `prefix_copy`. -/
def prefixCopy (dest src : Prefix) : Prefix :=
  { family := src.family
    prefixlen := src.prefixlen
    u := fun i => if i < src.family.bytes then src.u i else dest.u i }

/-- The byte loop of `route_common`, with the number of rounds that are left. -/
def commonLoop (np pp : Nat → UInt8) : Nat → Nat → (Nat → UInt8) → Nat × (Nat → UInt8)
  | 0, i, newp => (i, newp)
  | left + 1, i, newp => if np i = pp i then commonLoop np pp left (i + 1) (Function.update newp i (np i)) else (i, newp)

/-- The mask loop of `route_common`, with the number of bits that are left. -/
def maskLoop (diff : UInt8) : Nat → UInt8 → Nat → Nat
  | 0, _, prefixlen => prefixlen
  | left + 1, mask, prefixlen => if mask &&& diff = 0 then maskLoop diff left (mask >>> 1) (prefixlen + 1) else prefixlen

/-- `route_common`. -/
def routeCommon (n p new : Prefix) : Prefix :=
  let (i, newp) := commonLoop n.u p.u (p.prefixlen / 8) 0 new.u
  if i * 8 ≠ p.prefixlen then
    let prefixlen := maskLoop (n.u i ^^^ p.u i) (p.prefixlen - i * 8) 0x80 (i * 8)
    { new with prefixlen := prefixlen, u := Function.update newp i (n.u i &&& maskbit.getD (prefixlen % 8) 0) }
  else { new with prefixlen := i * 8, u := newp }

/-- The bits of an address, the highest one of the first byte first. -/
def addressBit (u : Nat → UInt8) (j : Nat) : Bool :=
  (u (j / 8)).toNat.testBit (7 - j % 8)

/-- The masked prefix: the bits within the length. -/
def Prefix.key (p : Prefix) : List Bool :=
  (List.range p.prefixlen).map (addressBit p.u)

@[simp]
theorem Prefix.length_key (p : Prefix) : p.key.length = p.prefixlen := by
  simp [Prefix.key]

theorem bitAt_key {p : Prefix} {j : Nat} (h : j < p.prefixlen) : bitAt p.key j = addressBit p.u j := by
  simp [bitAt, Prefix.key, h]

theorem key_prefix_iff (n p : Prefix) :
    n.key <+: p.key ↔ n.prefixlen ≤ p.prefixlen ∧ ∀ j < n.prefixlen, addressBit n.u j = addressBit p.u j := by
  constructor
  · intro h
    have hlen : n.prefixlen ≤ p.prefixlen := by simpa using h.length_le
    refine ⟨hlen, fun j hj => ?_⟩
    rw [← bitAt_key hj, ← bitAt_key (hj.trans_le hlen), bitAt, bitAt, List.getD_eq_getElem?_getD,
      List.getD_eq_getElem?_getD, (List.prefix_iff_getElem?.mp h) j (by simpa using hj)]
    simp [hj]
  · rintro ⟨hlen, hbits⟩
    rw [List.prefix_iff_getElem?]
    intro j hj
    have hj' : j < n.prefixlen := by simpa using hj
    simp [Prefix.key, hbits j hj', hj'.trans_le hlen]

theorem testBit_byte {b : UInt8} {t : Nat} (h : 8 ≤ t) : b.toNat.testBit t = false :=
  Nat.testBit_lt_two_pow (b.toNat_lt.trans_le (Nat.pow_le_pow_right (by decide) h))

theorem byte_eq_iff {a b : UInt8} : a = b ↔ ∀ t < 8, a.toNat.testBit (7 - t) = b.toNat.testBit (7 - t) := by
  refine ⟨fun h t _ => by rw [h], fun h => UInt8.toNat_inj.mp (Nat.eq_of_testBit_eq fun t => ?_)⟩
  by_cases ht : t < 8
  · have hbit := h (7 - t) (by omega)
    rwa [show 7 - (7 - t) = t by omega] at hbit
  · rw [testBit_byte (by omega), testBit_byte (by omega)]

theorem testBit_maskbit {shift t : Nat} (hs : shift < 9) (ht : t < 8) :
    (maskbit.getD shift 0).toNat.testBit (7 - t) = decide (t < shift) := by
  have hall : ∀ shift < 9, ∀ t < 8, (maskbit.getD shift 0).toNat.testBit (7 - t) = decide (t < shift) := by decide
  exact hall shift hs t ht

/-- A byte below a mask is zero, if the bits that count are. -/
theorem maskbit_and_eq_zero {shift : Nat} {diff : UInt8} (hs : shift < 9) :
    maskbit.getD shift 0 &&& diff = 0 ↔ ∀ t < shift, diff.toNat.testBit (7 - t) = false := by
  rw [byte_eq_iff]
  constructor
  · intro h t ht
    have hbit := h t (by omega)
    rw [UInt8.toNat_and, Nat.testBit_and, testBit_maskbit hs (by omega)] at hbit
    simpa [ht] using hbit
  · intro h t ht
    rw [UInt8.toNat_and, Nat.testBit_and, testBit_maskbit hs ht]
    by_cases hts : t < shift
    · simp [hts, h t hts]
    · simp [hts]

theorem prefixBit_eq (u : Nat → UInt8) (j : Nat) : prefixBit u j = addressBit u j := by
  have hshift : (UInt8.ofNat (7 - j % 8)).toNat = 7 - j % 8 := by
    simp only [UInt8.toNat_ofNat']
    omega
  have hbit : ((u (j / 8) >>> UInt8.ofNat (7 - j % 8)) &&& 1).toNat =
      ((u (j / 8)).toNat.testBit (7 - j % 8)).toNat := by
    rw [UInt8.toNat_and, UInt8.toNat_shiftRight, hshift, show (7 - j % 8) % 8 = 7 - j % 8 by omega, UInt8.toNat_one,
      Nat.and_one_is_mod, Nat.toNat_testBit, Nat.shiftRight_eq_div_pow]
  rw [prefixBit, addressBit, Bool.eq_iff_iff, decide_eq_true_iff, ← UInt8.toNat_inj, hbit]
  cases (u (j / 8)).toNat.testBit (7 - j % 8) <;> simp

/-- The bits of the bytes in front of a byte, and the bits of the byte. -/
theorem addressBit_byte (u : Nat → UInt8) {i t : Nat} (ht : t < 8) :
    addressBit u (8 * i + t) = (u i).toNat.testBit (7 - t) := by
  rw [addressBit, show (8 * i + t) / 8 = i by omega, show (8 * i + t) % 8 = t by omega]

theorem bytes_eq_iff {np pp : Nat → UInt8} {k : Nat} :
    (∀ i < k, np i = pp i) ↔ ∀ j < 8 * k, addressBit np j = addressBit pp j := by
  constructor
  · intro h j hj
    rw [addressBit, addressBit, h (j / 8) (by omega)]
  · intro h i hi
    refine byte_eq_iff.mpr fun t ht => ?_
    rw [← addressBit_byte np ht, ← addressBit_byte pp ht]
    exact h _ (by omega)

theorem sameBytes_iff {np pp : Nat → UInt8} {k : Nat} : sameBytes np pp k = true ↔ ∀ i < k, np i = pp i := by
  induction k with
  | zero => simp [sameBytes]
  | succ k ih =>
      simp only [sameBytes, Nat.lt_succ_iff_lt_or_eq, or_imp, forall_and, forall_eq, ← ih]
      by_cases h : np k = pp k <;> simp [h]

/-- `prefix_match` compares the keys. -/
theorem prefixMatch_iff {n p : Prefix} : prefixMatch n p = true ↔ n.key <+: p.key := by
  rw [key_prefix_iff]
  by_cases hlen : n.prefixlen ≤ p.prefixlen
  · have hmask : (n.prefixlen % 8 ≠ 0 ∧
        maskbit.getD (n.prefixlen % 8) 0 &&& (n.u (n.prefixlen / 8) ^^^ p.u (n.prefixlen / 8)) ≠ 0) ↔
        ¬ ∀ t < n.prefixlen % 8, (n.u (n.prefixlen / 8)).toNat.testBit (7 - t) =
          (p.u (n.prefixlen / 8)).toNat.testBit (7 - t) := by
      simp only [ne_eq, maskbit_and_eq_zero (show n.prefixlen % 8 < 9 by omega), UInt8.toNat_xor, Nat.testBit_xor,
        bne_eq_false_iff_eq]
      constructor
      · exact fun h => h.2
      · refine fun h => ⟨fun hzero => h fun t ht => ?_, h⟩
        omega
    have hsplit : (∀ j < n.prefixlen, addressBit n.u j = addressBit p.u j) ↔
        (∀ i < n.prefixlen / 8, n.u i = p.u i) ∧ ∀ t < n.prefixlen % 8,
          (n.u (n.prefixlen / 8)).toNat.testBit (7 - t) = (p.u (n.prefixlen / 8)).toNat.testBit (7 - t) := by
      rw [bytes_eq_iff]
      constructor
      · refine fun h => ⟨fun j hj => h j (by omega), fun t ht => ?_⟩
        rw [← addressBit_byte n.u (by omega), ← addressBit_byte p.u (by omega)]
        exact h _ (by omega)
      · rintro ⟨hbytes, hrest⟩ j hj
        by_cases hj' : j < 8 * (n.prefixlen / 8)
        · exact hbytes j hj'
        · obtain ⟨t, rfl⟩ : ∃ t, j = 8 * (n.prefixlen / 8) + t := ⟨j - 8 * (n.prefixlen / 8), by omega⟩
          rw [addressBit_byte n.u (by omega), addressBit_byte p.u (by omega)]
          exact hrest t (by omega)
    rw [hsplit, prefixMatch, if_neg (by omega)]
    simp only [hmask]
    split
    · next h => simp [h]
    · next h => rw [sameBytes_iff]; exact ⟨fun hb => ⟨hlen, hb, not_not.mp h⟩, fun hb => hb.2.1⟩
  · simp [prefixMatch, hlen]

/-- `prefix_copy` keeps the key, if the length is one of an address of the family. -/
theorem key_prefixCopy {dest src : Prefix} (h : src.prefixlen ≤ 8 * src.family.bytes) :
    (prefixCopy dest src).key = src.key := by
  refine List.map_congr_left fun j hj => ?_
  have hj' : j < src.prefixlen := List.mem_range.mp hj
  have hlt : j / 8 < src.family.bytes := by omega
  simp [addressBit, prefixCopy, hlt]

/-! ### Where two keys part -/

theorem commonLoop_spec {np pp : Nat → UInt8} {left i : Nat} {newp : Nat → UInt8}
    (h : ∀ k < i, newp k = np k ∧ np k = pp k) :
    ∃ m newp', commonLoop np pp left i newp = (m, newp') ∧ m ≤ i + left ∧
      (∀ k < m, newp' k = np k ∧ np k = pp k) ∧ (m = i + left ∨ np m ≠ pp m) := by
  induction left generalizing i newp with
  | zero => exact ⟨i, newp, rfl, le_rfl, h, .inl rfl⟩
  | succ left ih =>
      by_cases hi : np i = pp i
      · have hnext : ∀ k < i + 1, Function.update newp i (np i) k = np k ∧ np k = pp k := by
          intro k hk
          by_cases hki : k = i
          · subst hki
            exact ⟨Function.update_self _ _ _, hi⟩
          · rw [Function.update_of_ne hki]
            exact h k (by omega)
        obtain ⟨m, newp', hrun, hle, hsame, hstop⟩ := ih hnext
        exact ⟨m, newp', by rw [commonLoop, if_pos hi, hrun], by omega, hsame, hstop.imp_left fun hm => by omega⟩
      · exact ⟨i, newp, by rw [commonLoop, if_neg hi], by omega, h, .inr hi⟩

/-- The mask stands at bit `s`, or has left the byte. -/
def MaskAt (mask : UInt8) (s : Nat) : Prop :=
  ∀ t < 8, mask.toNat.testBit (7 - t) = decide (t = s)

theorem MaskAt.shift {mask : UInt8} {s : Nat} (h : MaskAt mask s) : MaskAt (mask >>> 1) (s + 1) := by
  intro t ht
  rw [UInt8.toNat_shiftRight, UInt8.toNat_one, Nat.testBit_shiftRight]
  cases t with
  | zero => simpa using testBit_byte (b := mask) (t := 8) le_rfl
  | succ t =>
      rw [show 1 % 8 + (7 - (t + 1)) = 7 - t by omega, h t (by omega)]
      simp

theorem MaskAt.and_eq_zero {mask diff : UInt8} {s : Nat} (h : MaskAt mask s) :
    mask &&& diff = 0 ↔ (s < 8 → diff.toNat.testBit (7 - s) = false) := by
  rw [byte_eq_iff]
  constructor
  · intro hzero hs
    have hbit := hzero s hs
    rw [UInt8.toNat_and, Nat.testBit_and, h s hs] at hbit
    simpa using hbit
  · intro hs t ht
    rw [UInt8.toNat_and, Nat.testBit_and, h t ht]
    by_cases hts : t = s
    · subst hts
      simp [hs ht]
    · simp [hts]

theorem maskLoop_spec {diff mask : UInt8} {left s b : Nat} (h : MaskAt mask s)
    (hs : ∀ t < s, t < 8 → diff.toNat.testBit (7 - t) = false) :
    ∃ m, maskLoop diff left mask (b + s) = b + m ∧ m ≤ s + left ∧
      (∀ t < m, t < 8 → diff.toNat.testBit (7 - t) = false) ∧
      (m = s + left ∨ m < 8 ∧ diff.toNat.testBit (7 - m) = true) := by
  induction left generalizing mask s with
  | zero => exact ⟨s, rfl, le_rfl, hs, .inl rfl⟩
  | succ left ih =>
      by_cases hzero : mask &&& diff = 0
      · have hnext : ∀ t < s + 1, t < 8 → diff.toNat.testBit (7 - t) = false := by
          intro t ht ht'
          by_cases hts : t = s
          · subst hts
            exact h.and_eq_zero.mp hzero ht'
          · exact hs t (by omega) ht'
        obtain ⟨m, hrun, hle, hbits, hstop⟩ := ih h.shift hnext
        exact ⟨m, by rw [maskLoop, if_pos hzero, Nat.add_assoc, hrun], by omega, hbits,
          hstop.imp_left fun hm => by omega⟩
      · refine ⟨s, by rw [maskLoop, if_neg hzero], by omega, hs, .inr ?_⟩
        rw [h.and_eq_zero, Classical.not_imp, Bool.not_eq_false] at hzero
        exact hzero

theorem common_key {n p : Prefix} {len : Nat} (hlen : len ≤ p.prefixlen)
    (hbits : ∀ j < len, addressBit n.u j = addressBit p.u j)
    (hstop : len = p.prefixlen ∨ addressBit n.u len ≠ addressBit p.u len) (h : ¬ n.key <+: p.key) :
    common n.key p.key = Prefix.key { n with prefixlen := len } := by
  have hlt : len < n.prefixlen := by
    by_contra hno
    exact h ((key_prefix_iff n p).mpr ⟨by omega, fun j hj => hbits j (by omega)⟩)
  have hsucc : ∀ q : Prefix, Prefix.key { q with prefixlen := len } ++ [addressBit q.u len] =
      Prefix.key { q with prefixlen := len + 1 } := fun q => by simp [Prefix.key, List.range_succ]
  have hsame : Prefix.key { n with prefixlen := len } = Prefix.key { p with prefixlen := len } :=
    List.map_congr_left fun j hj => hbits j (List.mem_range.mp hj)
  refine common_eq (c := addressBit n.u len) ?_ ?_ ?_
  · rw [hsucc]
    exact (key_prefix_iff _ n).mpr ⟨hlt, fun _ _ => rfl⟩
  · exact (key_prefix_iff _ p).mpr ⟨hlen, hbits⟩
  · obtain rfl | hne := hstop
    · exact .inl hsame
    · by_cases heq : len = p.prefixlen
      · subst heq
        exact .inl hsame
      · refine .inr ⟨addressBit p.u len, hne.symm, ?_⟩
        rw [hsame, hsucc]
        exact (key_prefix_iff _ p).mpr ⟨by change len + 1 ≤ p.prefixlen; omega, fun _ _ => rfl⟩

/-- `route_common` gives the common prefix to the new node, if the one prefix is none of the other. -/
theorem key_routeCommon {n p new : Prefix} (h : ¬ n.key <+: p.key) : (routeCommon n p new).key = common n.key p.key := by
  obtain ⟨i, newp, hrun, hle, hsame, hstop⟩ :=
    @commonLoop_spec n.u p.u (p.prefixlen / 8) 0 new.u (by simp)
  rw [Nat.zero_add] at hle hstop
  have hbytes : ∀ j < 8 * i, addressBit n.u j = addressBit p.u j := bytes_eq_iff.mp fun k hk => (hsame k hk).2
  have hnew : ∀ j < 8 * i, addressBit newp j = addressBit n.u j := bytes_eq_iff.mp fun k hk => (hsame k hk).1
  by_cases hall : i * 8 = p.prefixlen
  · have hres : routeCommon n p new = { new with prefixlen := i * 8, u := newp } := by
      simp [routeCommon, hrun, hall]
    rw [hres, common_key (by omega) (fun j hj => hbytes j (by omega)) (.inl hall) h]
    refine List.map_congr_left fun j hj => hnew j ?_
    have hj' : j < i * 8 := List.mem_range.mp hj
    omega
  · obtain ⟨m, hmask, hm, hzero, hend⟩ := @maskLoop_spec (n.u i ^^^ p.u i) 0x80 (p.prefixlen - i * 8) 0 (i * 8)
      (by unfold MaskAt; decide) (by simp)
    rw [Nat.add_zero] at hmask
    rw [Nat.zero_add] at hm hend
    have hres : routeCommon n p new = { new with
        prefixlen := i * 8 + m
        u := Function.update newp i (n.u i &&& maskbit.getD ((i * 8 + m) % 8) 0) } := by
      simp [routeCommon, hrun, hall, hmask]
    -- the mask does not leave the byte
    have hm8 : m < 8 := by
      by_contra hno
      obtain hfull | hne := hstop
      · obtain hm' | ⟨hm', -⟩ := hend <;> omega
      · refine hne (byte_eq_iff.mpr fun t ht => ?_)
        simpa using hzero t (by omega) ht
    have hbits : ∀ j < i * 8 + m, addressBit n.u j = addressBit p.u j := by
      intro j hj
      by_cases hj' : j < 8 * i
      · exact hbytes j hj'
      · obtain ⟨t, rfl⟩ : ∃ t, j = 8 * i + t := ⟨j - 8 * i, by omega⟩
        rw [addressBit_byte n.u (by omega), addressBit_byte p.u (by omega)]
        simpa using hzero t (by omega) (by omega)
    have hpart : i * 8 + m = p.prefixlen ∨ addressBit n.u (i * 8 + m) ≠ addressBit p.u (i * 8 + m) := by
      obtain hm' | ⟨-, hm'⟩ := hend
      · exact .inl (by omega)
      · refine .inr ?_
        rw [Nat.mul_comm, addressBit_byte n.u hm8, addressBit_byte p.u hm8]
        simpa using hm'
    rw [hres, common_key (by omega) hbits hpart h]
    refine List.map_congr_left fun j hj => ?_
    have hj' : j < i * 8 + m := List.mem_range.mp hj
    change addressBit (Function.update newp i (n.u i &&& maskbit.getD ((i * 8 + m) % 8) 0)) j = addressBit n.u j
    by_cases hlow : j < 8 * i
    · rw [← hnew j hlow, addressBit, addressBit, Function.update_of_ne (by omega)]
    · obtain ⟨t, rfl⟩ : ∃ t, j = 8 * i + t := ⟨j - 8 * i, by omega⟩
      rw [addressBit_byte _ (by omega), addressBit_byte _ (by omega), Function.update_self, UInt8.toNat_and,
        Nat.testBit_and, show (i * 8 + m) % 8 = m by omega, testBit_maskbit (by omega) (by omega)]
      have ht : t < m := by omega
      simp [ht]

end Harry.Table
