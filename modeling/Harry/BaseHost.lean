import Mathlib.Algebra.Group.Nat.Defs
import Mathlib.Data.List.Basic

/-! Memory of a host that stores the low byte of a number first: numbers in a given number of bytes, the byte swaps
between host and network order, records as strings of fields, and the walk over an array of records. -/

namespace Harry.Base

/-- The low `n` bytes of a number, as they are in memory. -/
def le : Nat → Nat → List UInt8
  | 0, _ => []
  | n + 1, x => UInt8.ofNat x :: le n (x / 2 ^ 8)

/-- The number in a string of bytes. -/
def ofLe : List UInt8 → Nat
  | [] => 0
  | b :: bs => b.toNat + 2 ^ 8 * ofLe bs

/-- A number of `n` bytes with its bytes the other way round (`htons`, `ntohs`, `htonl`, `ntohl`). -/
def swap (n x : Nat) : Nat := ofLe (le n x).reverse

@[simp] theorem length_le (n x : Nat) : (le n x).length = n := by
  induction n generalizing x with
  | zero => rfl
  | succ n ih => rw [le, List.length_cons, ih]

theorem ofLe_le (n x : Nat) : ofLe (le n x) = x % 2 ^ (8 * n) := by
  induction n generalizing x with
  | zero => rw [le, ofLe, Nat.mul_zero, Nat.pow_zero, Nat.mod_one]
  | succ n ih =>
      have hpow : 2 ^ (8 * (n + 1)) = 2 ^ 8 * 2 ^ (8 * n) := by
        rw [Nat.mul_succ, Nat.pow_add, Nat.mul_comm]
      rw [le, ofLe, ih, UInt8.toNat_ofNat', hpow, Nat.mod_mul]

theorem le_ofLe (bs : List UInt8) : le bs.length (ofLe bs) = bs := by
  induction bs with
  | nil => rfl
  | cons b bs ih =>
      have hb := b.toNat_lt
      have hlow : UInt8.ofNat (ofLe (b :: bs)) = b := by
        rw [← UInt8.toNat_inj, UInt8.toNat_ofNat', ofLe]
        omega
      have hhigh : ofLe (b :: bs) / 2 ^ 8 = ofLe bs := by
        rw [ofLe]
        omega
      rw [List.length_cons, le, hlow, hhigh, ih]

theorem ofLe_lt (bs : List UInt8) : ofLe bs < 2 ^ (8 * bs.length) := by
  have hlt : ofLe (le bs.length (ofLe bs)) < 2 ^ (8 * bs.length) := by
    rw [ofLe_le]
    exact Nat.mod_lt _ (Nat.two_pow_pos _)
  rwa [le_ofLe] at hlt

theorem le_swap (n x : Nat) : le n (swap n x) = (le n x).reverse := by
  have hback := le_ofLe (le n x).reverse
  rwa [List.length_reverse, length_le] at hback

theorem swap_lt (n x : Nat) : swap n x < 2 ^ (8 * n) := by
  have hlt := ofLe_lt (le n x).reverse
  rwa [List.length_reverse, length_le] at hlt

theorem swap_swap (n x : Nat) : swap n (swap n x) = x % 2 ^ (8 * n) := by
  rw [swap, le_swap, List.reverse_reverse, ofLe_le]

theorem swap_swap_of_lt {n x : Nat} (hx : x < 2 ^ (8 * n)) : swap n (swap n x) = x := by
  rw [swap_swap, Nat.mod_eq_of_lt hx]

/-! ### Records -/

/-- `n` bytes at an offset; outside of the buffer there are none. -/
def bytesAt (data : List UInt8) (off n : Nat) : Option (List UInt8) :=
  if off + n ≤ data.length then some ((data.drop off).take n) else none

/-- The number in `n` bytes at an offset. -/
def numberIn (data : List UInt8) (off n : Nat) : Option Nat := (bytesAt data off n).map ofLe

/-- A field of a record: its place is behind the fields before it. -/
theorem bytesAt_flatten (fs : List (List UInt8)) {f : List UInt8} (i : Nat) (hf : fs[i]? = some f) {off n : Nat}
    (hoff : (fs.take i).flatten.length = off) (hn : f.length = n) (rest : List UInt8) :
    bytesAt (fs.flatten ++ rest) off n = some f := by
  have hi := (List.getElem?_eq_some_iff.mp hf).1
  have hget := (List.getElem?_eq_some_iff.mp hf).2
  have hsplit : fs.flatten ++ rest = (fs.take i).flatten ++ (f ++ ((fs.drop (i + 1)).flatten ++ rest)) := by
    have hfs : fs = fs.take i ++ f :: fs.drop (i + 1) := by
      rw [← hget, ← List.drop_eq_getElem_cons hi, List.take_append_drop]
    calc fs.flatten ++ rest = (fs.take i ++ f :: fs.drop (i + 1)).flatten ++ rest := by rw [← hfs]
      _ = (fs.take i).flatten ++ (f ++ ((fs.drop (i + 1)).flatten ++ rest)) := by
          rw [List.flatten_append, List.flatten_cons, List.append_assoc, List.append_assoc]
  rw [bytesAt, hsplit, if_pos, List.drop_left' hoff, List.take_left' hn]
  rw [List.length_append, List.length_append, hoff, hn]
  omega

theorem numberIn_flatten (fs : List (List UInt8)) {n x : Nat} (i : Nat) (hf : fs[i]? = some (le n x)) {off : Nat}
    (hoff : (fs.take i).flatten.length = off) (rest : List UInt8) :
    numberIn (fs.flatten ++ rest) off n = some (x % 2 ^ (8 * n)) := by
  rw [numberIn, bytesAt_flatten fs i hf hoff (length_le n x), Option.map_some, ofLe_le]

section Records

variable {σ ρ : Type}

/-- `n` records of `size` bytes from a pointer on, one after another. -/
def eachRecord (size : Nat) (process : List UInt8 → σ → Option σ) : Nat → List UInt8 → σ → Option σ
  | 0, _, s => some s
  | n + 1, data, s => process data s >>= eachRecord size process n (data.drop size)

theorem eachRecord_flatMap {size : Nat} {process : List UInt8 → σ → Option σ} {enc : ρ → List UInt8} {f : σ → ρ → σ}
    (hsize : ∀ r, (enc r).length = size) {J : σ → Prop} (hkeep : ∀ s r, J s → J (f s r))
    (hstep : ∀ s r rest, J s → process (enc r ++ rest) s = some (f s r)) (rs : List ρ) (rest : List UInt8) {s : σ}
    (hs : J s) : eachRecord size process rs.length (rs.flatMap enc ++ rest) s = some (rs.foldl f s) := by
  induction rs generalizing s with
  | nil => rfl
  | cons r rs ih =>
      have hdrop : (enc r ++ (rs.flatMap enc ++ rest)).drop size = rs.flatMap enc ++ rest := List.drop_left' (hsize r)
      rw [List.length_cons, eachRecord, List.flatMap_cons, List.append_assoc, hstep s r _ hs, Option.bind_eq_bind,
        Option.bind_some, hdrop, ih (hkeep s r hs), List.foldl_cons]

theorem length_flatMap_records {size : Nat} {enc : ρ → List UInt8} (hsize : ∀ r, (enc r).length = size) (rs : List ρ) :
    (rs.flatMap enc).length = size * rs.length := by
  induction rs with
  | nil => rfl
  | cons r rs ih => rw [List.flatMap_cons, List.length_append, hsize, ih, List.length_cons, Nat.mul_succ, Nat.add_comm]

end Records

end Harry.Base
