import Mathlib.Algebra.BigOperators.Group.List.Defs
import Mathlib.Algebra.Ring.Nat
import Mathlib.Data.List.Forall2
import Mathlib.Data.List.Induction
import Harry.BaseRadix

/-! Numbers as strings of bits, the highest first, and fields of given widths packed into one string. Cutting a string
into fields and packing the fields again are inverse to each other, so two ways to cut the same string translate
between each other without loss. -/

namespace Harry.Base

/-- The number a string of bits stands for. -/
def ofBits (l : List Bool) : Nat := l.foldl (fun v b => 2 * v + b.toNat) 0

@[simp] theorem ofBits_nil : ofBits [] = 0 := rfl

theorem ofBits_concat (l : List Bool) (b : Bool) : ofBits (l ++ [b]) = 2 * ofBits l + b.toNat := by
  rw [ofBits, List.foldl_append]
  rfl

theorem ofBits_lt (l : List Bool) : ofBits l < 2 ^ l.length := by
  induction l using List.reverseRecOn with
  | nil => exact Nat.one_pos
  | append_singleton l b ih =>
      have hb := b.toNat_le
      rw [ofBits_concat, List.length_append, List.length_singleton, Nat.pow_succ]
      omega

/-- The low bits come last. -/
theorem bitsOf_add (m n x : Nat) : bitsOf (m + n) x = bitsOf m (x >>> n) ++ bitsOf n x := by
  induction m with
  | zero => rw [Nat.zero_add, bitsOf, List.nil_append]
  | succ m ih =>
      have hstep : m + 1 + n = (m + n) + 1 := by omega
      rw [hstep, bitsOf, ih, bitsOf, Nat.testBit_shiftRight, Nat.add_comm n m, List.cons_append]

theorem ofBits_bitsOf (n x : Nat) : ofBits (bitsOf n x) = x % 2 ^ n := by
  induction n generalizing x with
  | zero => rw [bitsOf, ofBits_nil, Nat.pow_zero, Nat.mod_one]
  | succ n ih =>
      have hlast : bitsOf 1 x = [x.testBit 0] := rfl
      have hbit : (x.testBit 0).toNat = x % 2 := by
        rw [Nat.toNat_testBit, Nat.pow_zero, Nat.div_one]
      calc ofBits (bitsOf (n + 1) x) = 2 * (x / 2 % 2 ^ n) + x % 2 := by
            rw [bitsOf_add, hlast, ofBits_concat, ih, Nat.shiftRight_one, hbit]
        _ = x % 2 ^ (n + 1) := by
            rw [Nat.pow_succ', Nat.mod_mul]
            omega

theorem bitsOf_ofBits (l : List Bool) : bitsOf l.length (ofBits l) = l := by
  induction l using List.reverseRecOn with
  | nil => rfl
  | append_singleton l b ih =>
      have hhalf : (2 * ofBits l + b.toNat) >>> 1 = ofBits l := by
        have hb := b.toNat_le
        rw [Nat.shiftRight_one]
        omega
      have hlast : bitsOf 1 (2 * ofBits l + b.toNat) = [b] := by
        rw [bitsOf, bitsOf, Nat.testBit_zero]
        cases b <;> simp
      rw [List.length_append, List.length_singleton, ofBits_concat, bitsOf_add, hhalf, ih, hlast]

theorem bitsOf_and (n x y : Nat) : bitsOf n (x &&& y) = List.zipWith (· && ·) (bitsOf n x) (bitsOf n y) := by
  induction n with
  | zero => rfl
  | succ n ih => rw [bitsOf, bitsOf, bitsOf, List.zipWith_cons_cons, ih, Nat.testBit_and]

/-- A mask keeps the first bits and clears the others. -/
theorem zipWith_and_mask (l : List Bool) {k n : Nat} (h : l.length = k + n) :
    List.zipWith (· && ·) l (List.replicate k true ++ List.replicate n false) = l.take k ++ List.replicate n false := by
  induction k generalizing l with
  | zero =>
      rw [Nat.zero_add] at h
      rw [List.take_zero, List.nil_append, List.replicate_zero, List.nil_append, ← h]
      clear h
      induction l with
      | nil => rfl
      | cons b l ih => rw [List.length_cons, List.replicate_succ, List.zipWith_cons_cons, ih, Bool.and_false]
  | succ k ih =>
      cases l with
      | nil =>
          rw [List.length_nil] at h
          omega
      | cons b l =>
          have hlen : l.length = k + n := by
            rw [List.length_cons] at h
            omega
          rw [List.replicate_succ, List.cons_append, List.zipWith_cons_cons, ih l hlen, List.take_succ_cons, Bool.and_true,
            List.cons_append]

/-! ### Fields -/

/-- Fields of the given widths, one after another. -/
def pack : List Nat → List Nat → List Bool
  | w :: ws, v :: vs => bitsOf w v ++ pack ws vs
  | _, _ => []

/-- A string cut into fields of the given widths. -/
def unpack : List Nat → List Bool → List Nat
  | [], _ => []
  | w :: ws, l => ofBits (l.take w) :: unpack ws (l.drop w)

/-- Every value has room in its field. -/
def Fits : List Nat → List Nat → Prop := List.Forall₂ fun w v => v < 2 ^ w

theorem Fits.lt_of_replicate {n w : Nat} {vs : List Nat} (h : Fits (List.replicate n w) vs) : ∀ v ∈ vs, v < 2 ^ w := by
  induction n generalizing vs with
  | zero =>
      obtain rfl := List.forall₂_nil_left_iff.mp h
      exact List.forall_mem_nil _
  | succ n ih =>
      rw [List.replicate_succ] at h
      cases h with
      | cons hv hvs => exact List.forall_mem_cons.mpr ⟨hv, ih hvs⟩

theorem length_pack {ws vs : List Nat} (h : Fits ws vs) : (pack ws vs).length = ws.sum := by
  induction h with
  | nil => rfl
  | cons _ _ ih => rw [pack, List.length_append, length_bitsOf, ih, List.sum_cons]

theorem length_unpack (ws : List Nat) (l : List Bool) : (unpack ws l).length = ws.length := by
  induction ws generalizing l with
  | nil => rfl
  | cons w ws ih => rw [unpack, List.length_cons, ih, List.length_cons]

theorem unpack_pack {ws vs : List Nat} (h : Fits ws vs) : unpack ws (pack ws vs) = vs := by
  induction h with
  | nil => rfl
  | @cons w v ws vs hv _ ih =>
      have hlen : (bitsOf w v).length = w := length_bitsOf w v
      rw [pack, unpack, List.take_left' hlen, List.drop_left' hlen, ofBits_bitsOf, Nat.mod_eq_of_lt hv, ih]

theorem pack_unpack {ws : List Nat} {l : List Bool} (h : l.length = ws.sum) : pack ws (unpack ws l) = l := by
  induction ws generalizing l with
  | nil => exact (List.length_eq_zero_iff.mp h).symm
  | cons w ws ih =>
      rw [List.sum_cons] at h
      have htake : (l.take w).length = w := by
        rw [List.length_take]
        omega
      have hdrop : (l.drop w).length = ws.sum := by
        rw [List.length_drop]
        omega
      have hfield : bitsOf w (ofBits (l.take w)) = l.take w := by
        calc bitsOf w (ofBits (l.take w)) = bitsOf (l.take w).length (ofBits (l.take w)) := by rw [htake]
          _ = l.take w := bitsOf_ofBits _
      rw [unpack, pack, hfield, ih hdrop, List.take_append_drop]

theorem fits_unpack {ws : List Nat} {l : List Bool} (h : l.length = ws.sum) : Fits ws (unpack ws l) := by
  induction ws generalizing l with
  | nil => exact List.Forall₂.nil
  | cons w ws ih =>
      rw [List.sum_cons] at h
      have htake : (l.take w).length = w := by
        rw [List.length_take]
        omega
      refine List.Forall₂.cons ?_ (ih ?_)
      · calc ofBits (l.take w) < 2 ^ (l.take w).length := ofBits_lt _
          _ = 2 ^ w := by rw [htake]
      · rw [List.length_drop]
        omega

theorem unpack_inj {ws : List Nat} {l l' : List Bool} (h : l.length = ws.sum) (h' : l'.length = ws.sum) :
    unpack ws l = unpack ws l' ↔ l = l' := by
  constructor
  · intro heq
    rw [← pack_unpack h, heq, pack_unpack h']
  · rintro rfl
    rfl

theorem take_unpack (ws : List Nat) (k : Nat) (l : List Bool) :
    (unpack ws l).take k = unpack (ws.take k) (l.take (ws.take k).sum) := by
  induction ws generalizing k l with
  | nil => rw [List.take_nil, unpack, unpack, List.take_nil]
  | cons w ws ih =>
      cases k with
      | zero => rfl
      | succ k =>
          rw [unpack, List.take_succ_cons, List.take_succ_cons, List.sum_cons, unpack, ih, List.take_take, List.drop_take,
            Nat.min_eq_left (Nat.le_add_right _ _), Nat.add_sub_cancel_left]

theorem sum_take_le (ws : List Nat) (k : Nat) : (ws.take k).sum ≤ ws.sum := by
  conv_rhs => rw [← List.take_append_drop k ws, List.sum_append]
  exact Nat.le_add_right _ _

/-- Strings agree in the bits of the first fields if they agree in these fields. -/
theorem take_eq_take_iff_unpack {ws : List Nat} {l l' : List Bool} (h : l.length = ws.sum) (h' : l'.length = ws.sum)
    (k : Nat) : l.take (ws.take k).sum = l'.take (ws.take k).sum ↔ (unpack ws l).take k = (unpack ws l').take k := by
  have hle := sum_take_le ws k
  rw [take_unpack, take_unpack, unpack_inj]
  · rw [List.length_take, h, Nat.min_eq_left hle]
  · rw [List.length_take, h', Nat.min_eq_left hle]

theorem byteBits_eq_pack (bs : List UInt8) : byteBits bs = pack (List.replicate bs.length 8) (bs.map UInt8.toNat) := by
  induction bs with
  | nil => rfl
  | cons b bs ih =>
      have hcons : byteBits (b :: bs) = bitsOf 8 b.toNat ++ byteBits bs := rfl
      rw [hcons, ih]
      rfl

theorem fits_bytes (bs : List UInt8) : Fits (List.replicate bs.length 8) (bs.map UInt8.toNat) := by
  induction bs with
  | nil => exact .nil
  | cons b bs ih => exact .cons b.toNat_lt ih

theorem byteBits_and (as bs : List UInt8) :
    byteBits (List.zipWith (· &&& ·) as bs) = List.zipWith (· && ·) (byteBits as) (byteBits bs) := by
  induction as generalizing bs with
  | nil => rfl
  | cons a as ih =>
      cases bs with
      | nil => simp [byteBits]
      | cons b bs =>
          have hlen : (bitsOf 8 a.toNat).length = (bitsOf 8 b.toNat).length := by rw [length_bitsOf, length_bitsOf]
          have hcons (c : UInt8) (cs : List UInt8) : byteBits (c :: cs) = bitsOf 8 c.toNat ++ byteBits cs := rfl
          rw [List.zipWith_cons_cons, hcons, hcons, hcons, ih, UInt8.toNat_and, bitsOf_and, List.zipWith_append hlen]

/-- A string cut into bytes. -/
theorem byteBits_unpack {n : Nat} {l : List Bool} (h : l.length = 8 * n) :
    byteBits ((unpack (List.replicate n 8) l).map UInt8.ofNat) = l := by
  have hsum : l.length = (List.replicate n 8).sum := by
    rw [List.sum_replicate, h, Nat.mul_comm]
    rfl
  have hvalues : ((unpack (List.replicate n 8) l).map UInt8.ofNat).map UInt8.toNat = unpack (List.replicate n 8) l := by
    rw [List.map_map]
    refine (List.map_congr_left fun v hv => ?_).trans (List.map_id _)
    have hlt := (fits_unpack hsum).lt_of_replicate v hv
    simp only [Function.comp_apply, UInt8.toNat_ofNat', id_eq]
    omega
  rw [byteBits_eq_pack, hvalues, List.length_map, length_unpack, List.length_replicate, pack_unpack hsum]

end Harry.Base
