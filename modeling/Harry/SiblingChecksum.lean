import Mathlib.Tactic.Ring
import Mathlib.Tactic.Linarith
import Harry.SiblingReplica
import Harry.SiblingConverge

/-! The checksum of an LSA, `ospf6_lsa_checksum`, on the bytes it is computed from and in the arithmetic of an `int`.
The two bytes it stores make both Fletcher sums of the LSA vanish, whatever the LSA holds and however long it is. -/

namespace Harry.Sibling

open Harry.Base Harry.Rfp Prog

/-- A value of an `int`; where the arithmetic leaves its range there is none. -/
def toInt (x : Int) : Option Int := if -2147483648 ≤ x ∧ x ≤ 2147483647 then some x else none

/-- `c0 += *p; c1 += c0`. -/
def addByte (c : Int × Int) (b : UInt8) : Option (Int × Int) := do
  let c0 ← toInt (c.1 + b.toNat)
  let c1 ← toInt (c.2 + c0)
  pure (c0, c1)

/-- The loop over the stretches of `MODX` bytes; the first number bounds the recursion. -/
def addBytes : Nat → List UInt8 → Int × Int → Option (Int × Int)
  | 0, _, c => some c
  | n + 1, bs, c =>
    if bs = [] then some c
    else do
      let c ← (bs.take modx).foldlM addByte c
      addBytes n (bs.drop modx) (c.1.tmod 255, c.2.tmod 255)

/-- The correction bytes that go with the two sums over `length` bytes. -/
def correction (length : Int) (c : Int × Int) : Option (Int × Int) := do
  let product ← toInt ((length - 15) * c.1)
  let difference ← toInt (product - c.2)
  let x := difference.tmod 255
  let x := if x ≤ 0 then x + 255 else x
  let y := 510 - c.1 - x
  pure (x, if 255 < y then y - 255 else y)

/-- The checksum field of an LSA holds these two bytes. -/
def putChecksum (lsa : List UInt8) (x y : Int) : List UInt8 :=
  (lsa.set 16 (UInt8.ofNat x.toNat)).set 17 (UInt8.ofNat y.toNat)

/-- `ospf6_lsa_checksum`, up to the store: the two bytes that it computes of an LSA. -/
def lsaChecksumBytes (lsa : List UInt8) : Option (Int × Int) := do
  let length := u16At lsa 18 - 2
  let c ← addBytes lsa.length (((putChecksum lsa 0 0).drop 2).take length.toNat) (0, 0)
  correction length.toNat c

/-- The Fletcher sums of bytes: of the bytes, and of the sums up to each of them. -/
def fletcherSums (bs : List UInt8) : Nat × Nat := bs.foldl fletcherStep (0, 0)

section Sums

variable {bs : List UInt8} {c : Nat × Nat}

theorem foldl_fletcherStep (bs : List UInt8) (c : Nat × Nat) :
    bs.foldl fletcherStep c = (c.1 + (fletcherSums bs).1, c.2 + bs.length * c.1 + (fletcherSums bs).2) := by
  unfold fletcherSums
  induction bs generalizing c with
  | nil => simp
  | cons b bs ih =>
      rw [List.foldl_cons, List.foldl_cons, ih, ih (fletcherStep (0, 0) b)]
      simp only [fletcherStep, List.length_cons, Prod.mk.injEq]
      constructor
      · omega
      · ring

theorem fletcherSums_append (as bs : List UInt8) : fletcherSums (as ++ bs) =
    ((fletcherSums as).1 + (fletcherSums bs).1,
      (fletcherSums as).2 + bs.length * (fletcherSums as).1 + (fletcherSums bs).2) := by
  rw [fletcherSums, List.foldl_append, foldl_fletcherStep bs]
  rfl

theorem foldl_fletcherStep_mod (bs : List UInt8) (c : Nat × Nat) :
    ((bs.foldl fletcherStep (c.1 % 255, c.2 % 255)).1 % 255, (bs.foldl fletcherStep (c.1 % 255, c.2 % 255)).2 % 255) =
      ((bs.foldl fletcherStep c).1 % 255, (bs.foldl fletcherStep c).2 % 255) := by
  rw [foldl_fletcherStep bs c, foldl_fletcherStep bs (c.1 % 255, c.2 % 255)]
  simp [Nat.add_mod, Nat.mul_mod]

/-- The reduction after each stretch does not show in the remainders. -/
theorem fletcher_eq {n : Nat} (hn : bs.length ≤ n) (h1 : c.1 < 255) (h2 : c.2 < 255) :
    fletcher n bs c = ((bs.foldl fletcherStep c).1 % 255, (bs.foldl fletcherStep c).2 % 255) := by
  induction n generalizing bs c with
  | zero =>
      obtain rfl : bs = [] := List.length_eq_zero_iff.mp (Nat.le_zero.mp hn)
      rw [fletcher, List.foldl_nil, Nat.mod_eq_of_lt h1, Nat.mod_eq_of_lt h2]
  | succ n ih =>
      rw [fletcher]
      by_cases hbs : bs = []
      · rw [if_pos hbs, hbs, List.foldl_nil, Nat.mod_eq_of_lt h1, Nat.mod_eq_of_lt h2]
      · rw [if_neg hbs]
        have hpos : 0 < bs.length := List.length_pos_iff.mpr hbs
        have hdrop : (bs.drop modx).length ≤ n := by
          rw [List.length_drop, modx]
          omega
        have hstep := ih hdrop (c := (((bs.take modx).foldl fletcherStep c).1 % 255,
          ((bs.take modx).foldl fletcherStep c).2 % 255)) (Nat.mod_lt _ (by decide)) (Nat.mod_lt _ (by decide))
        rw [hstep, foldl_fletcherStep_mod, ← List.foldl_append, List.take_append_drop]

end Sums

section Overflow

variable {bs : List UInt8} {c : Nat × Nat}

theorem toInt_eq {x : Int} (h : -2147483648 ≤ x) (h' : x ≤ 2147483647) : toInt x = some x := if_pos ⟨h, h'⟩

/-- Two sums with room for this many bytes: each of them adds at most 255 to the first sum. -/
def Room (n : Nat) (c : Nat × Nat) : Prop := 2 * (c.2 + n * c.1) + 255 * (n * (n + 1)) < 2 ^ 32

theorem Room.step {n : Nat} (h : Room (n + 1) c) (b : UInt8) :
    c.1 + b.toNat < 2 ^ 31 ∧ c.2 + (c.1 + b.toNat) < 2 ^ 31 ∧ Room n (fletcherStep c b) := by
  have hb : b.toNat ≤ 255 := Nat.le_of_lt_succ b.toNat_lt
  have hnb : n * b.toNat ≤ n * 255 := Nat.mul_le_mul_left n hb
  have hfirst : (n + 1) * c.1 = n * c.1 + c.1 := Nat.succ_mul n c.1
  have hsquare : (n + 1) * (n + 1 + 1) = n * (n + 1) + 2 * (n + 1) := by ring
  have hsecond : n * (c.1 + b.toNat) = n * c.1 + n * b.toNat := Nat.mul_add n c.1 b.toNat
  unfold Room at h
  rw [hfirst, hsquare] at h
  refine ⟨by omega, by omega, ?_⟩
  show 2 * (c.2 + (c.1 + b.toNat) + n * (c.1 + b.toNat)) + 255 * (n * (n + 1)) < 2 ^ 32
  rw [hsecond]
  omega

/-- The sums as the code has them. -/
def castSums (c : Nat × Nat) : Int × Int := (c.1, c.2)

theorem addByte_eq {n : Nat} (h : Room (n + 1) c) (b : UInt8) :
    addByte (castSums c) b = some (castSums (fletcherStep c b)) := by
  obtain ⟨h1, h2, -⟩ := h.step b
  have h1' : toInt ((c.1 : Int) + b.toNat) = some ((c.1 : Int) + b.toNat) := toInt_eq (by omega) (by omega)
  have h2' : toInt ((c.2 : Int) + (c.1 + b.toNat)) = some ((c.2 : Int) + (c.1 + b.toNat)) :=
    toInt_eq (by omega) (by omega)
  simp only [addByte, castSums, h1', h2', bind, Option.bind, pure, fletcherStep, Nat.cast_add]

theorem foldlM_addByte (h : Room bs.length c) :
    bs.foldlM addByte (castSums c) = some (castSums (bs.foldl fletcherStep c)) := by
  induction bs generalizing c with
  | nil => rfl
  | cons b bs ih =>
      rw [List.foldlM_cons, addByte_eq h b, List.foldl_cons]
      exact ih (h.step b).2.2

/-- A stretch of `MODX` bytes has room between two reductions. -/
theorem room_of_le {n : Nat} (hn : n ≤ modx) (h1 : c.1 < 255) (h2 : c.2 < 255) : Room n c := by
  unfold modx at hn
  have hc : n * c.1 ≤ 4102 * 254 := Nat.mul_le_mul hn (by omega)
  have hn' : n * (n + 1) ≤ 4102 * 4103 := Nat.mul_le_mul hn (by omega)
  unfold Room
  omega

theorem tmod_cast (n : Nat) : (n : Int).tmod 255 = ((n % 255 : Nat) : Int) := by
  rw [Int.tmod_eq_emod_of_nonneg (Int.natCast_nonneg n)]
  rfl

theorem addBytes_eq (n : Nat) (h1 : c.1 < 255) (h2 : c.2 < 255) :
    addBytes n bs (castSums c) = some (castSums (fletcher n bs c)) := by
  induction n generalizing bs c with
  | zero => rfl
  | succ n ih =>
      rw [addBytes, fletcher]
      by_cases hbs : bs = []
      · rw [if_pos hbs, if_pos hbs]
      · rw [if_neg hbs, if_neg hbs, foldlM_addByte (room_of_le (List.length_take_le _ _) h1 h2)]
        show addBytes n _ (Int.tmod _ 255, Int.tmod _ 255) = _
        rw [castSums, tmod_cast, tmod_cast]
        have hlt : ∀ m : Nat, m % 255 < 255 := fun m => Nat.mod_lt m (Nat.succ_pos 254)
        exact ih (c := (_, _)) (hlt _) (hlt _)

end Overflow

/-- Two bytes that make up for the sums `c` of the other bytes, where the first of them stands in the fifteenth
place of `length`. -/
structure Corrects (length : Int) (c : Int × Int) (x y : Int) : Prop where
  first : 1 ≤ x ∧ x ≤ 255
  second : 1 ≤ y ∧ y ≤ 255
  sum : 255 ∣ c.1 + x + y
  weighted : 255 ∣ c.2 + (length - 14) * x + (length - 15) * y

/-- Two sums of remainders leave the formula within the range of an `int`. -/
theorem correction_eq {length c0 c1 : Int} (hlength : 0 ≤ length ∧ length ≤ 65535) (h0 : 0 ≤ c0 ∧ c0 < 255)
    (h1 : 0 ≤ c1 ∧ c1 < 255) : correction length (c0, c1) = some
      (let x := ((length - 15) * c0 - c1).tmod 255
      let x := if x ≤ 0 then x + 255 else x
      let y := 510 - c0 - x
      (x, if 255 < y then y - 255 else y)) := by
  have hproduct : -15 * 254 ≤ (length - 15) * c0 ∧ (length - 15) * c0 ≤ 65535 * 254 := by
    constructor
    · nlinarith
    · nlinarith
  have htoInt : toInt ((length - 15) * c0) = some ((length - 15) * c0) := toInt_eq (by omega) (by omega)
  have htoInt' : toInt ((length - 15) * c0 - c1) = some ((length - 15) * c0 - c1) := toInt_eq (by omega) (by omega)
  simp only [correction, htoInt, htoInt', bind, Option.bind, pure]

theorem correction_spec {length c0 c1 : Int} (hlength : 0 ≤ length ∧ length ≤ 65535) (h0 : 0 ≤ c0 ∧ c0 < 255)
    (h1 : 0 ≤ c1 ∧ c1 < 255) : ∃ x y, correction length (c0, c1) = some (x, y) ∧ Corrects length (c0, c1) x y := by
  have hlt := Int.tmod_lt_of_pos ((length - 15) * c0 - c1) (show (0 : Int) < 255 by decide)
  have hgt := Int.lt_tmod_of_pos ((length - 15) * c0 - c1) (show (0 : Int) < 255 by decide)
  obtain ⟨k, hk⟩ : 255 ∣ (length - 15) * c0 - c1 - ((length - 15) * c0 - c1).tmod 255 :=
    Int.dvd_self_sub_tmod
  rw [correction_eq hlength h0 h1]
  generalize ((length - 15) * c0 - c1).tmod 255 = r at hlt hgt hk
  obtain ⟨j, x, hx, hx1, hx2⟩ : ∃ j x, (if r ≤ 0 then r + 255 else r) = x ∧ x = r + 255 * j ∧ 1 ≤ x ∧ x ≤ 255 := by
    split
    · exact ⟨1, _, rfl, by omega, by omega, by omega⟩
    · exact ⟨0, _, rfl, by omega, by omega, by omega⟩
  obtain ⟨i, y, hy, hy1, hy2⟩ : ∃ i y, (if 255 < 510 - c0 - x then 510 - c0 - x - 255 else 510 - c0 - x) = y ∧
      y = 255 * i - c0 - x ∧ 1 ≤ y ∧ y ≤ 255 := by
    split
    · exact ⟨1, _, rfl, by omega, by omega, by omega⟩
    · exact ⟨2, _, rfl, by omega, by omega, by omega⟩
  refine ⟨x, y, ?_, hx2, hy2, ⟨i, ?_⟩, ⟨(length - 15) * i + j - k, ?_⟩⟩
  · simp only [hx, hy]
  · show c0 + x + y = 255 * i
    omega
  · show c1 + (length - 14) * x + (length - 15) * y = 255 * ((length - 15) * i + j - k)
    have hc1 : c1 = (length - 15) * c0 - 255 * k - r := by linarith
    rw [hc1, hy1, hx1]
    ring

/-! ### The bytes of an LSA -/

/-- The bytes of an LSA: a header that says how many they are, and what is behind it. -/
structure IsLsa (lsa : List UInt8) : Prop where
  header : 20 ≤ lsa.length
  length : (u16At lsa 18).toNat = lsa.length

/-- Two LSAs that are the same but for the age and the checksum. -/
structure SameContents (lsa lsa' : List UInt8) : Prop where
  length : lsa'.length = lsa.length
  byte : ∀ i, 2 ≤ i → i ≠ 16 → i ≠ 17 → lsa'[i]? = lsa[i]?

section Bytes

variable {lsa lsa' : List UInt8} {x y : Int}

theorem length_putChecksum (lsa : List UInt8) (x y : Int) : (putChecksum lsa x y).length = lsa.length := by
  simp [putChecksum]

theorem putChecksum_getElem? (lsa : List UInt8) (x y : Int) {i : Nat} (h16 : i ≠ 16) (h17 : i ≠ 17) :
    (putChecksum lsa x y)[i]? = lsa[i]? := by
  rw [putChecksum, List.getElem?_set_ne h17.symm, List.getElem?_set_ne h16.symm]

theorem sameContents_putChecksum (lsa : List UInt8) (x y : Int) : SameContents lsa (putChecksum lsa x y) where
  length := length_putChecksum lsa x y
  byte _ _ h16 h17 := putChecksum_getElem? lsa x y h16 h17

theorem SameContents.u16At (h : SameContents lsa lsa') : u16At lsa' 18 = u16At lsa 18 := by
  have h18 := h.byte 18 (by decide) (by decide) (by decide)
  have h19 := h.byte 19 (by decide) (by decide) (by decide)
  simp only [Sibling.u16At, u8At, List.getD_eq_getElem?_getD, h18, h19]

theorem SameContents.isLsa (h : SameContents lsa lsa') (hl : IsLsa lsa) : IsLsa lsa' where
  header := h.length ▸ hl.header
  length := by rw [h.u16At, h.length, hl.length]

/-- With the checksum set, nothing is left of the differences. -/
theorem SameContents.drop_eq (h : SameContents lsa lsa') :
    (putChecksum lsa' x y).drop 2 = (putChecksum lsa x y).drop 2 := by
  refine List.ext_getElem? fun i => ?_
  rw [List.getElem?_drop, List.getElem?_drop]
  by_cases h16 : 2 + i = 16
  · rw [h16]
    simp [putChecksum, List.getElem?_set, h.length]
  · by_cases h17 : 2 + i = 17
    · rw [h17]
      simp [putChecksum, List.getElem?_set, h.length]
    · rw [putChecksum_getElem? _ _ _ h16 h17, putChecksum_getElem? _ _ _ h16 h17]
      exact h.byte _ (Nat.le_add_right 2 i) h16 h17

/-- Neither the age nor the checksum enters the result. -/
theorem lsaChecksumBytes_congr (h : SameContents lsa lsa') : lsaChecksumBytes lsa' = lsaChecksumBytes lsa := by
  rw [lsaChecksumBytes, lsaChecksumBytes, h.u16At, h.length, h.drop_eq]

/-- An LSA from its type on is fourteen bytes, the checksum, and what is behind it. -/
theorem putChecksum_split (h : 20 ≤ lsa.length) : ∃ front back : List UInt8, front.length = 14 ∧
    back.length + 18 = lsa.length ∧
    ∀ x y, (putChecksum lsa x y).drop 2 = front ++ ([UInt8.ofNat x.toNat, UInt8.ofNat y.toNat] ++ back) := by
  obtain ⟨front, a, b, back, rfl, hfront⟩ : ∃ front a b back, lsa = front ++ a :: b :: back ∧ front.length = 16 := by
    refine ⟨lsa.take 16, lsa[16], lsa[17], lsa.drop 18, ?_, List.length_take_of_le (by omega)⟩
    rw [← List.drop_eq_getElem_cons, ← List.drop_eq_getElem_cons, List.take_append_drop]
  refine ⟨front.drop 2, back, ?_, ?_, fun x y => ?_⟩
  · rw [List.length_drop, hfront]
  · simp [hfront]
    omega
  · rw [putChecksum, List.set_append_right _ _ (by omega), hfront, List.set_append_right _ _ (by omega), hfront,
      List.drop_append_of_le_length (by omega)]
    rfl

theorem fletcherSums_put (front back : List UInt8) (a b : UInt8) :
    fletcherSums (front ++ ([a, b] ++ back)) =
      ((fletcherSums (front ++ ([0, 0] ++ back))).1 + a.toNat + b.toNat,
        (fletcherSums (front ++ ([0, 0] ++ back))).2 + (back.length + 2) * a.toNat + (back.length + 1) * b.toNat) := by
  simp only [fletcherSums_append]
  simp [fletcherSums, fletcherStep]
  constructor
  · omega
  · ring

/-- The two sums of an LSA without its checksum, as the loops leave them. -/
def checksumSums (lsa : List UInt8) : Nat × Nat :=
  ((fletcherSums ((putChecksum lsa 0 0).drop 2)).1 % 255, (fletcherSums ((putChecksum lsa 0 0).drop 2)).2 % 255)

theorem checksumSums_lt (lsa : List UInt8) : (checksumSums lsa).1 < 255 ∧ (checksumSums lsa).2 < 255 :=
  ⟨Nat.mod_lt _ (Nat.succ_pos 254), Nat.mod_lt _ (Nat.succ_pos 254)⟩

/-- The number of bytes that the sums are taken over. -/
theorem IsLsa.length_le (h : IsLsa lsa) : 0 ≤ ((lsa.length - 2 : Nat) : Int) ∧ ((lsa.length - 2 : Nat) : Int) ≤ 65535 := by
  have hmax : lsa.length < 65536 := h.length ▸ (u16At lsa 18).toNat_lt
  omega

/-- The sums stay in the range of an `int`, and they are the Fletcher sums. -/
theorem lsaChecksumBytes_eq (h : IsLsa lsa) :
    lsaChecksumBytes lsa = correction ((lsa.length - 2 : Nat) : Int) (castSums (checksumSums lsa)) := by
  have hlength : (u16At lsa 18 - 2).toNat = lsa.length - 2 := by
    rw [UInt16.toNat_sub_of_le _ _ (UInt16.le_iff_toNat_le.mpr (h.length ▸ (by decide : 2 ≤ 20).trans h.header)), h.length]
    rfl
  have hall : ((putChecksum lsa 0 0).drop 2).take (lsa.length - 2) = (putChecksum lsa 0 0).drop 2 :=
    List.take_of_length_le (by rw [List.length_drop, length_putChecksum])
  have hfletcher : fletcher lsa.length ((putChecksum lsa 0 0).drop 2) (0, 0) = checksumSums lsa :=
    fletcher_eq (by rw [List.length_drop, length_putChecksum]; omega) (by decide) (by decide)
  have hadd : addBytes lsa.length ((putChecksum lsa 0 0).drop 2) (0, 0) = some (castSums (checksumSums lsa)) := by
    rw [← hfletcher]
    exact addBytes_eq lsa.length (c := (0, 0)) (by decide) (by decide)
  unfold lsaChecksumBytes
  dsimp only
  rw [hlength, hall, hadd]
  rfl

/-- Two bytes in the place of the checksum with which both Fletcher sums vanish. -/
structure Closes (lsa : List UInt8) (x y : Int) : Prop where
  first : 1 ≤ x ∧ x ≤ 255
  second : 1 ≤ y ∧ y ≤ 255
  sum : (fletcherSums ((putChecksum lsa x y).drop 2)).1 % 255 = 0
  weighted : (fletcherSums ((putChecksum lsa x y).drop 2)).2 % 255 = 0

theorem cast_ofNat {x : Int} (h : 1 ≤ x ∧ x ≤ 255) : ((UInt8.ofNat x.toNat).toNat : Int) = x := by
  rw [UInt8.toNat_ofNat', Nat.mod_eq_of_lt (by omega)]
  omega

/-- The two bytes make up for the sums of all others. -/
theorem Corrects.closes {x y : Int} (hlsa : 20 ≤ lsa.length)
    (h : Corrects ((lsa.length - 2 : Nat) : Int) (castSums (checksumSums lsa)) x y) : Closes lsa x y := by
  obtain ⟨front, back, hfront, hback, hput⟩ := putChecksum_split hlsa
  have hsums := fletcherSums_put front back (UInt8.ofNat x.toNat) (UInt8.ofNat y.toNat)
  have hzero : (putChecksum lsa 0 0).drop 2 = front ++ ([0, 0] ++ back) := hput 0 0
  have hx := cast_ofNat h.first
  have hy := cast_ofNat h.second
  have hsum : 255 ∣ (((fletcherSums ((putChecksum lsa 0 0).drop 2)).1 % 255 : Nat) : Int) + x + y := h.sum
  have hweighted : 255 ∣ (((fletcherSums ((putChecksum lsa 0 0).drop 2)).2 % 255 : Nat) : Int) +
      (((lsa.length - 2 : Nat) : Int) - 14) * x + (((lsa.length - 2 : Nat) : Int) - 15) * y := h.weighted
  have h14 : ((lsa.length - 2 : Nat) : Int) - 14 = ((back.length + 2 : Nat) : Int) := by omega
  have h15 : ((lsa.length - 2 : Nat) : Int) - 15 = ((back.length + 1 : Nat) : Int) := by omega
  rw [← hput x y] at hsums
  rw [← hzero] at hsums
  generalize fletcherSums ((putChecksum lsa 0 0).drop 2) = S at hsum hweighted hsums
  generalize (UInt8.ofNat x.toNat).toNat = a at hx hsums
  generalize (UInt8.ofNat y.toNat).toNat = b at hy hsums
  rw [h14, h15, ← hx, ← hy] at hweighted
  rw [← hx, ← hy] at hsum
  have hsum' : 255 ∣ S.1 % 255 + a + b := by exact_mod_cast hsum
  have hweighted' : 255 ∣ S.2 % 255 + (back.length + 2) * a + (back.length + 1) * b := by exact_mod_cast hweighted
  refine ⟨h.first, h.second, ?_, ?_⟩
  · rw [hsums]
    dsimp only
    omega
  · rw [hsums]
    dsimp only
    generalize (back.length + 2) * a = p at hweighted' ⊢
    generalize (back.length + 1) * b = q at hweighted' ⊢
    omega

theorem lsaChecksumBytes_closes (h : IsLsa lsa) : ∃ x y, lsaChecksumBytes lsa = some (x, y) ∧ Closes lsa x y := by
  obtain ⟨x, y, hrun, hc⟩ := correction_spec h.length_le
    ⟨Int.natCast_nonneg _, Int.ofNat_lt.mpr (checksumSums_lt lsa).1⟩
    ⟨Int.natCast_nonneg _, Int.ofNat_lt.mpr (checksumSums_lt lsa).2⟩
  exact ⟨x, y, (lsaChecksumBytes_eq h).trans hrun, hc.closes h.header⟩

end Bytes

section Receive

variable {ρ : Type}

theorem u16At_length (h : LsaHeader) (age : UInt16) (body : List UInt8) : u16At (h.bytes age ++ body) 18 = h.length := by
  have hlt := h.length.toNat_lt
  refine UInt16.toNat_inj.mp ?_
  show (UInt16.ofNat ((UInt8.ofNat (h.length.toNat / 2 ^ 8)).toNat * 2 ^ 8 + (UInt8.ofNat h.length.toNat).toNat)).toNat = _
  rw [UInt16.toNat_ofNat', UInt8.toNat_ofNat', UInt8.toNat_ofNat']
  omega

theorem length_bytes (h : LsaHeader) (age : UInt16) : (h.bytes age).length = 20 := rfl

theorem isLsa_bytes {h : LsaHeader} {body : List UInt8} (hlen : h.length.toNat = 20 + body.length) (age : UInt16) :
    IsLsa (h.bytes age ++ body) where
  header := by
    rw [List.length_append, length_bytes]
    exact Nat.le_add_right 20 _
  length := by rw [u16At_length, hlen, List.length_append, length_bytes]

/-- The checksum that an LSA is checked by is the one of its bytes. -/
theorem lsaChecksum_eq {h : LsaHeader} {body : List UInt8} {age : UInt16} {x y : Int}
    (hlen : h.length.toNat = 20 + body.length) (hrun : lsaChecksumBytes (h.bytes age ++ body) = some (x, y)) :
    lsaChecksum h body = UInt16.ofNat (x * 2 ^ 8 + y).toNat := by
  have hlsa := isLsa_bytes hlen age
  have hbytes : ({ h with checksum := 0 }.bytes 0).drop 2 ++ body = (putChecksum (h.bytes age ++ body) 0 0).drop 2 := by
    simp [putChecksum, LsaHeader.bytes, htons16, htons, htonl]
  have hlength : (h.bytes age ++ body).length - 2 = h.length.toNat - 2 := by
    rw [List.length_append, length_bytes, hlen]
  have hall : ((putChecksum (h.bytes age ++ body) 0 0).drop 2).take (h.length.toNat - 2) =
      (putChecksum (h.bytes age ++ body) 0 0).drop 2 :=
    List.take_of_length_le (by rw [List.length_drop, length_putChecksum, hlength])
  have hfletcher : fletcher ((putChecksum (h.bytes age ++ body) 0 0).drop 2).length
      ((putChecksum (h.bytes age ++ body) 0 0).drop 2) (0, 0) = checksumSums (h.bytes age ++ body) :=
    fletcher_eq le_rfl (by decide) (by decide)
  rw [lsaChecksumBytes_eq hlsa, hlength, castSums, correction_eq (hlength ▸ hlsa.length_le)
    ⟨Int.natCast_nonneg _, Int.ofNat_lt.mpr (checksumSums_lt _).1⟩
    ⟨Int.natCast_nonneg _, Int.ofNat_lt.mpr (checksumSums_lt _).2⟩, Option.some.injEq, Prod.mk.injEq] at hrun
  obtain ⟨hx, hy⟩ := hrun
  unfold lsaChecksum
  dsimp only at hx hy ⊢
  rw [hbytes, hall, hfletcher, hx]
  rw [hx] at hy
  rw [hy]

theorem u16At_checksum (h : LsaHeader) (age : UInt16) (body : List UInt8) :
    u16At (h.bytes age ++ body) 16 = h.checksum := by
  have hlt := h.checksum.toNat_lt
  refine UInt16.toNat_inj.mp ?_
  show (UInt16.ofNat ((UInt8.ofNat (h.checksum.toNat / 2 ^ 8)).toNat * 2 ^ 8 +
    (UInt8.ofNat h.checksum.toNat).toNat)).toNat = _
  rw [UInt16.toNat_ofNat', UInt8.toNat_ofNat', UInt8.toNat_ofNat']
  omega

theorem u16At_putChecksum {lsa : List UInt8} {x y : Int} (hlsa : 20 ≤ lsa.length) (hx : 1 ≤ x ∧ x ≤ 255)
    (hy : 1 ≤ y ∧ y ≤ 255) : u16At (putChecksum lsa x y) 16 = UInt16.ofNat (x * 2 ^ 8 + y).toNat := by
  have h16 : u8At (putChecksum lsa x y) 16 = UInt8.ofNat x.toNat := by
    rw [u8At, putChecksum, List.getD_eq_getElem?_getD, List.getElem?_set_ne (by decide), List.getElem?_set_self (by omega)]
    rfl
  have h17 : u8At (putChecksum lsa x y) 17 = UInt8.ofNat y.toNat := by
    rw [u8At, putChecksum, List.getD_eq_getElem?_getD, List.getElem?_set_self (by rw [List.length_set]; omega)]
    rfl
  rw [u16At, h16, h17, UInt8.toNat_ofNat', UInt8.toNat_ofNat', Nat.mod_eq_of_lt (by omega), Nat.mod_eq_of_lt (by omega)]
  congr 1
  omega

/-- `ospf6_receive_lsa` past the check of the checksum. -/
def receiveSummed [RouteCalc ρ] (sender : NbrRef) (raw : RawLsa) (new : Addr) : M ρ Unit := do
  let lsdb ← receiveLsdb sender raw.header.type
  if lsdb.isNone then pure ()
  else do
    modifyInfo new fun l => { l with lsdb := lsdb }
    let drop ← isMaxageLsaDrop new
    if drop then pure () else receiveFrom5 sender raw new lsdb

/-- `ospf6_receive_lsa` of an LSA that is not discarded for its checksum. -/
def receiveAccepted [RouteCalc ρ] (sender : NbrRef) (hostnum : UInt32) (raw : RawLsa) : M ρ Unit := do
  let new ← lsaCreate raw.age raw.header raw.body
  modifyInfo new fun l => { l with hostnum := hostnum }
  receiveSummed sender raw new

theorem receiveLsa_of_checksum [RouteCalc ρ] {raw : RawLsa} (h : lsaChecksum raw.header raw.body = raw.header.checksum)
    (sender : NbrRef) (hostnum : UInt32) :
    (receiveLsa sender hostnum raw : M ρ Unit) = receiveAccepted sender hostnum raw := by
  have hrun : (receiveLsa sender hostnum raw : M ρ Unit) = (do
      let new ← lsaCreate raw.age raw.header raw.body
      modifyInfo new fun l => { l with hostnum := hostnum }
      if lsaChecksum raw.header raw.body ≠ raw.header.checksum then pure () else receiveSummed sender raw new) := rfl
  rw [hrun]
  simp only [ne_eq, h, not_true_eq_false, if_false]
  rfl

/-- The bytes of an LSA as a packet carries it. -/
def RawLsa.bytes (raw : RawLsa) : List UInt8 := raw.header.bytes raw.age ++ raw.body

/-- Bytes that are the same from the type on. -/
theorem sameContents_of_drop {lsa lsa' : List UInt8} (h : 20 ≤ lsa.length) (h' : 20 ≤ lsa'.length)
    (hdrop : lsa'.drop 2 = lsa.drop 2) : SameContents lsa lsa' where
  length := by
    have hlength := congrArg List.length hdrop
    rw [List.length_drop, List.length_drop] at hlength
    omega
  byte i hi _ _ := by
    have hbyte := congrArg (fun bs => bs[i - 2]?) hdrop
    simp only [List.getElem?_drop] at hbyte
    rwa [Nat.add_sub_cancel' hi] at hbyte

/-- `ospf6_lsa_checksum` stays in the range of an `int`; the two bytes it stores make both Fletcher sums vanish; the
age and the checksum that was there do not enter; and `ospf6_receive_lsa` accepts what carries them. -/
theorem lsaChecksum_sound [RouteCalc ρ] {lsa : List UInt8} (h : IsLsa lsa) :
    ∃ x y, lsaChecksumBytes lsa = some (x, y) ∧ Closes lsa x y ∧
      (∀ lsa', SameContents lsa lsa' → lsaChecksumBytes lsa' = some (x, y)) ∧
      lsaChecksumBytes (putChecksum lsa x y) = some (x, y) ∧
      ∀ (raw : RawLsa) (sender : NbrRef) (hostnum : UInt32), raw.bytes.drop 2 = (putChecksum lsa x y).drop 2 →
        (receiveLsa sender hostnum raw : M ρ Unit) = receiveAccepted sender hostnum raw := by
  obtain ⟨x, y, hrun, hcloses⟩ := lsaChecksumBytes_closes h
  have hstored := sameContents_putChecksum lsa x y
  refine ⟨x, y, hrun, hcloses, fun lsa' hsame => (lsaChecksumBytes_congr hsame).trans hrun,
    (lsaChecksumBytes_congr hstored).trans hrun, fun raw sender hostnum hdrop => ?_⟩
  have hraw : 20 ≤ raw.bytes.length := by
    rw [RawLsa.bytes, List.length_append, length_bytes]
    exact Nat.le_add_right 20 _
  have hput : 20 ≤ (putChecksum lsa x y).length := by
    rw [length_putChecksum]
    exact h.header
  have hsame := sameContents_of_drop hput hraw hdrop
  have hlsa : IsLsa raw.bytes := hsame.isLsa (hstored.isLsa h)
  have hlen : raw.header.length.toNat = 20 + raw.body.length := by
    have hlength := hlsa.length
    rwa [RawLsa.bytes, u16At_length, List.length_append, length_bytes] at hlength
  have hsum : lsaChecksum raw.header raw.body = UInt16.ofNat (x * 2 ^ 8 + y).toNat := by
    have hraw : lsaChecksumBytes (raw.header.bytes raw.age ++ raw.body) = some (x, y) :=
      (lsaChecksumBytes_congr hsame).trans ((lsaChecksumBytes_congr hstored).trans hrun)
    exact lsaChecksum_eq hlen hraw
  have hchecksum : raw.header.checksum = UInt16.ofNat (x * 2 ^ 8 + y).toNat := by
    have h16 := congrArg (fun bs => bs[14]?) hdrop
    have h17 := congrArg (fun bs => bs[15]?) hdrop
    simp only [List.getElem?_drop] at h16 h17
    rw [← u16At_checksum raw.header raw.age raw.body, ← u16At_putChecksum h.header hcloses.first hcloses.second]
    simp only [u16At, u8At, List.getD_eq_getElem?_getD]
    rw [show (raw.header.bytes raw.age ++ raw.body)[16]? = (putChecksum lsa x y)[16]? from h16,
      show (raw.header.bytes raw.age ++ raw.body)[16 + 1]? = (putChecksum lsa x y)[16 + 1]? from h17]
  exact receiveLsa_of_checksum (hsum.trans hchecksum.symm) sender hostnum

/-- A Router-LSA of router 1 without links, the checksum not yet set. -/
def routerLsaBytes : List UInt8 :=
  (⟨lstypeRouter, 0, 1, initialSequenceNumber, 0, 24⟩ : LsaHeader).bytes 0 ++ [0, 0, 0, 0x13]

theorem isLsa_routerLsaBytes : IsLsa routerLsaBytes := ⟨by decide, by decide⟩

theorem lsaChecksum_sound_routerLsaBytes : IsLsa routerLsaBytes ∧
    ∃ x y, lsaChecksumBytes routerLsaBytes = some (x, y) ∧ Closes routerLsaBytes x y ∧
      (∀ lsa', SameContents routerLsaBytes lsa' → lsaChecksumBytes lsa' = some (x, y)) ∧
      lsaChecksumBytes (putChecksum routerLsaBytes x y) = some (x, y) ∧
      ∀ (raw : RawLsa) (sender : NbrRef) (hostnum : UInt32),
        raw.bytes.drop 2 = (putChecksum routerLsaBytes x y).drop 2 →
          (receiveLsa sender hostnum raw : M Unit Unit) = receiveAccepted sender hostnum raw :=
  ⟨isLsa_routerLsaBytes, lsaChecksum_sound isLsa_routerLsaBytes⟩

end Receive

end Harry.Sibling
