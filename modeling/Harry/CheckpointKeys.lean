import Mathlib.Algebra.Ring.Int.Defs
import Mathlib.Data.List.Nodup
import Harry.CheckpointText

/-! The keys of a bucket (`db.c`, `ospf6_db.c`): the transaction ids of the messages, and beside them `cur_xid`. They
are listed in any order and sorted by the numbers that `sscanf` finds in them; for `cur_xid` the variables keep what
happens to be in them. -/

namespace Harry.Checkpoint

/-- `CURRENT_XID`. -/
def currentXid : List Char := ['c', 'u', 'r', '_', 'x', 'i', 'd']

/-- The key of a message. -/
def keyOf (xid : UInt32) : List Char := formatD xid.toNat

/-- Digits at the beginning of a text. -/
def digitsAt (text : List Char) : Option Nat :=
  match text.takeWhile Char.isDigit with
  | [] => none
  | d :: ds => some (Nat.ofDigitChars 10 (d :: ds) 0)

/-- The number at the beginning of a key, as `sscanf` with `%d` and `strtol` read it. -/
def numberAt : List Char → Option Int
  | '-' :: text => (digitsAt text).map fun n : Nat => -(n : Int)
  | text => (digitsAt text).map fun n : Nat => (n : Int)

/-- A number in a variable of type `unsigned int`. -/
def asUnsigned (z : Int) : UInt32 := UInt32.ofNat (z % 2 ^ 32).toNat

/-- `sscanf` with `%d` into a variable; without a number the variable stays as it is. -/
def sscanfD (text : List Char) (old : UInt32) : UInt32 := ((numberAt text).map asUnsigned).getD old

/-- `(unsigned int)strtol(text, NULL, 10)`. -/
def strtol (text : List Char) : UInt32 := asUnsigned ((numberAt text).getD 0)

/-- `keys_compare`, with what is in `a_xid` and `b_xid` when it is called. -/
def keysCompare (uninit : UInt32 × UInt32) (a b : List Char) : Int :=
  let aXid := sscanfD a uninit.1
  let bXid := sscanfD b uninit.2
  if aXid < bXid then -1 else if bXid < aXid then 1 else 0

/-- What `qsort` may make of `base`. When the results of its calls agree with an order, it is sorted by that, and keys
that compare equal are in any order; else it is left in some order. -/
def Qsort (compare : Nat → List Char → List Char → Int) (base result : List (List Char)) : Prop :=
  result.Perm base ∧ ∀ le : List Char → List Char → Prop,
    (∀ a ∈ base, ∀ b ∈ base, le a b ∨ le b a) →
    (∀ a ∈ base, ∀ b ∈ base, ∀ c ∈ base, le a b → le b c → le a c) →
    (∀ n, ∀ a ∈ base, ∀ b ∈ base, (compare n a b ≤ 0 ↔ le a b) ∧ (0 ≤ compare n a b ↔ le b a)) →
    result.Pairwise le

/-- `db_list_keys` with sorting: the store lists the keys in some order, and `uninit` is what the variables have in
each of the calls of `keys_compare`. -/
def DbListKeys (keys : List (List Char)) (uninit : Nat → UInt32 × UInt32) (result : List (List Char)) : Prop :=
  ∃ listing, listing.Perm keys ∧ Qsort (fun n => keysCompare (uninit n)) listing result

/-- `ospf6_db_last_key`, for the keys that are listed; without a key it reads before the array. -/
def ospf6DbLastKey (keys : List (List Char)) : Option UInt32 := keys.getLast?.map strtol

/-- The transaction ids that `ospf6_restart_start` replays: all keys but those that begin with `cur_xid`. -/
def restartXids (keys : List (List Char)) : List UInt32 :=
  (keys.filter fun key => key.take currentXid.length ≠ currentXid).map strtol

/-- What is in a bucket: the transaction ids of messages, and whether `cur_xid` is there, which is put with each of
them. -/
structure Bucket where
  xids : List UInt32
  marked : Bool
  nodup : xids.Nodup
  marked_of_ne_nil : xids ≠ [] → marked = true

namespace Bucket

def keys (b : Bucket) : List (List Char) := b.xids.map keyOf ++ if b.marked then [currentXid] else []

def empty : Bucket := ⟨[], false, List.nodup_nil, fun h => absurd rfl h⟩

/-- `ospf6_db_put_hello` and `ospf6_db_put_dbdesc`: the message under its key, then `cur_xid`. -/
def put (b : Bucket) (xid : UInt32) : Bucket := ⟨b.xids.insert xid, true, b.nodup.insert, fun _ => rfl⟩

end Bucket

/-- What a restart needs from the keys of a bucket, whatever the store and the memory are like: they are replayed in
their order, and the last key is the greatest of them. -/
def Bucket.ReplayedInOrder (b : Bucket) : Prop :=
  ∀ uninit ks, DbListKeys b.keys uninit ks →
    (restartXids ks).Perm b.xids ∧ (restartXids ks).Pairwise (· < ·) ∧
      ∃ k, ospf6DbLastKey ks = some k ∧ (∀ x ∈ b.xids, x ≤ k) ∧ (b.xids ≠ [] → k ∈ b.xids)

theorem digitsAt_toDigits (n : Nat) : digitsAt (Nat.toDigits 10 n) = some n := by
  have hdigit : ∀ d ∈ Nat.toDigits 10 n, d.isDigit = true := fun d hd =>
    Nat.isDigit_of_mem_toDigits (by decide) (by decide) hd
  have htake : (Nat.toDigits 10 n).takeWhile Char.isDigit = Nat.toDigits 10 n := by
    have happ : (Nat.toDigits 10 n ++ []).takeWhile Char.isDigit = Nat.toDigits 10 n ++ [].takeWhile Char.isDigit :=
      List.takeWhile_append_of_pos hdigit
    rwa [List.append_nil, List.takeWhile_nil, List.append_nil] at happ
  obtain ⟨d, ds, hds⟩ := List.exists_cons_of_ne_nil (Nat.toDigits_ne_nil (n := n) (b := 10))
  rw [digitsAt, htake, hds]
  simp only
  rw [← hds, Nat.ofDigitChars_ten_toDigits]

theorem numberAt_toDigits (n : Nat) : numberAt (Nat.toDigits 10 n) = some (n : Int) := by
  have hdigits := digitsAt_toDigits n
  have hdigit : ∀ d ∈ Nat.toDigits 10 n, d.isDigit = true := fun d hd =>
    Nat.isDigit_of_mem_toDigits (by decide) (by decide) hd
  obtain ⟨d, ds, hds⟩ := List.exists_cons_of_ne_nil (Nat.toDigits_ne_nil (n := n) (b := 10))
  have hd : d ≠ '-' := by
    rintro rfl
    exact absurd (hdigit '-' (hds ▸ List.mem_cons_self)) (by decide)
  rw [hds] at hdigits ⊢
  rw [numberAt, hdigits, Option.map_some]
  intro text heq
  exact hd (List.cons.inj heq).1

theorem asUnsigned_numberAt (xid : UInt32) : (numberAt (keyOf xid)).map asUnsigned = some xid := by
  have hlt := xid.toNat_lt
  rw [keyOf, formatD]
  split
  · rw [numberAt_toDigits, Option.map_some, asUnsigned]
    have hmod : ((xid.toNat : Int) % 2 ^ 32).toNat = xid.toNat := by omega
    rw [hmod, UInt32.ofNat_toNat]
  · rw [numberAt, digitsAt_toDigits, Option.map_some, Option.map_some, asUnsigned]
    have hmod : (-((2 ^ 32 - xid.toNat : Nat) : Int) % 2 ^ 32).toNat = xid.toNat := by omega
    rw [hmod, UInt32.ofNat_toNat]

theorem sscanfD_keyOf (xid old : UInt32) : sscanfD (keyOf xid) old = xid := by
  rw [sscanfD, asUnsigned_numberAt, Option.getD_some]

theorem strtol_keyOf (xid : UInt32) : strtol (keyOf xid) = xid := by
  obtain ⟨z, hz, hxid⟩ := Option.map_eq_some_iff.mp (asUnsigned_numberAt xid)
  rw [strtol, hz, Option.getD_some, hxid]

theorem sscanfD_currentXid (old : UInt32) : sscanfD currentXid old = old := by
  have hnumber : numberAt currentXid = none := by decide
  rw [sscanfD, hnumber]
  rfl

theorem strtol_currentXid : strtol currentXid = 0 := by decide

theorem keyOf_ne_currentXid (xid : UInt32) : (keyOf xid).take currentXid.length ≠ currentXid := by
  intro heq
  have hnumber := asUnsigned_numberAt xid
  cases hkey : keyOf xid with
  | nil => rw [hkey] at heq; exact absurd heq (by decide)
  | cons c text =>
      rw [hkey] at heq hnumber
      obtain rfl : c = 'c' := (List.cons.inj heq).1
      simp [numberAt, digitsAt] at hnumber

/-! ### Listing -/

section Listing

variable {b : Bucket} {ks : List (List Char)} {uninit : Nat → UInt32 × UInt32}

theorem mem_keys {key : List Char} : key ∈ b.keys ↔
    (∃ x ∈ b.xids, keyOf x = key) ∨ b.marked = true ∧ key = currentXid := by
  rw [Bucket.keys, List.mem_append, List.mem_map]
  cases b.marked <;> simp

theorem exists_keyOf {key : List Char} (hkey : key ∈ b.keys) (hne : key.take currentXid.length ≠ currentXid) :
    ∃ x, keyOf x = key := by
  rcases mem_keys.mp hkey with ⟨x, -, hx⟩ | ⟨-, rfl⟩
  · exact ⟨x, hx⟩
  · exact absurd List.take_length hne

theorem DbListKeys.perm (h : DbListKeys b.keys uninit ks) : ks.Perm b.keys := by
  obtain ⟨listing, hlisting, hsorted, -⟩ := h
  exact hsorted.trans hlisting

theorem restartXids_keys (b : Bucket) : restartXids b.keys = b.xids := by
  have hxids : (b.xids.map keyOf).filter (fun key => key.take currentXid.length ≠ currentXid) = b.xids.map keyOf := by
    refine List.filter_eq_self.mpr fun key hkey => ?_
    obtain ⟨x, -, rfl⟩ := List.mem_map.mp hkey
    exact decide_eq_true (keyOf_ne_currentXid x)
  have hmark : (if b.marked then [currentXid] else []).filter
      (fun key => key.take currentXid.length ≠ currentXid) = [] := by
    cases b.marked <;> rfl
  rw [restartXids, Bucket.keys, List.filter_append, hxids, hmark, List.append_nil, List.map_map]
  calc b.xids.map (strtol ∘ keyOf) = b.xids.map id := List.map_congr_left fun x _ => strtol_keyOf x
    _ = b.xids := List.map_id _

theorem restartXids_perm (h : ks.Perm b.keys) : (restartXids ks).Perm b.xids := by
  have hperm : (restartXids ks).Perm (restartXids b.keys) := (h.filter _).map _
  rwa [restartXids_keys] at hperm

/-- What a key counts as, when the variables have `u` in them. -/
def valueWith (u : UInt32) (key : List Char) : UInt32 := sscanfD key u

theorem keysCompare_const (u : UInt32) (a b : List Char) :
    (keysCompare (u, u) a b ≤ 0 ↔ valueWith u a ≤ valueWith u b) ∧
      (0 ≤ keysCompare (u, u) a b ↔ valueWith u b ≤ valueWith u a) := by
  simp only [keysCompare, valueWith]
  split
  case isTrue hlt =>
    have hle := UInt32.le_of_lt hlt
    exact ⟨iff_of_true (by decide) hle, iff_of_false (by decide) (UInt32.not_le.mpr hlt)⟩
  case isFalse hge =>
    have hle := UInt32.not_lt.mp hge
    split
    case isTrue hlt => exact ⟨iff_of_false (by decide) (UInt32.not_le.mpr hlt), iff_of_true (by decide) hle⟩
    case isFalse hge' => exact ⟨iff_of_true (by decide) (UInt32.not_lt.mp hge'), iff_of_true (by decide) hle⟩

/-- With the same in the variables each time the keys are sorted, `cur_xid` as that number. -/
theorem qsort_const (u : UInt32) {base : List (List Char)} :
    Qsort (fun _ => keysCompare (u, u)) base ks ↔
      ks.Perm base ∧ ks.Pairwise fun a b => valueWith u a ≤ valueWith u b := by
  constructor
  · intro h
    refine ⟨h.1, h.2 _ ?_ ?_ fun _ a _ b _ => keysCompare_const u a b⟩
    · intro a _ b _
      exact UInt32.le_total _ _
    · intro a _ b _ c _ hab hbc
      exact UInt32.le_trans hab hbc
  · rintro ⟨hperm, hsorted⟩
    refine ⟨hperm, fun le _ _ hagree => hsorted.imp_of_mem ?_⟩
    intro a b ha hb hle
    exact (hagree 0 a (hperm.mem_iff.mp ha) b (hperm.mem_iff.mp hb)).1.mp ((keysCompare_const u a b).1.mpr hle)

/-- With the same in the variables each time the messages are replayed in their order. -/
theorem restartXids_sorted {u : UInt32} (h : DbListKeys b.keys (fun _ => (u, u)) ks) :
    (restartXids ks).Perm b.xids ∧ (restartXids ks).Pairwise (· < ·) := by
  have hperm := restartXids_perm h.perm
  obtain ⟨listing, hlisting, hqsort⟩ := h
  obtain ⟨hks, hsorted⟩ := (qsort_const u).mp hqsort
  refine ⟨hperm, ?_⟩
  have hnodup : (restartXids ks).Nodup := hperm.nodup_iff.mpr b.nodup
  have hle : (restartXids ks).Pairwise (· ≤ ·) := by
    refine List.pairwise_map.mpr (((hsorted.filter _).imp_of_mem ?_))
    intro x y hx hy hxy
    have hkeys {key : List Char} (hmem : key ∈ ks.filter fun key => key.take currentXid.length ≠ currentXid) :
        ∃ x, keyOf x = key := by
      obtain ⟨hmem, hkey⟩ := List.mem_filter.mp hmem
      exact exists_keyOf ((hks.trans hlisting).mem_iff.mp hmem) (of_decide_eq_true hkey)
    obtain ⟨x, rfl⟩ := hkeys hx
    obtain ⟨y, rfl⟩ := hkeys hy
    rwa [valueWith, valueWith, sscanfD_keyOf, sscanfD_keyOf, ← strtol_keyOf x, ← strtol_keyOf y] at hxy
  exact (hle.and hnodup).imp fun ⟨hle, hne⟩ => UInt32.lt_of_le_of_ne hle hne

theorem le_neg_one (x : UInt32) : x ≤ -1 := by
  have hlt := x.toNat_lt
  have htop : (-1 : UInt32).toNat = 2 ^ 32 - 1 := rfl
  rw [UInt32.le_iff_toNat_le]
  omega

/-- Where the variables have the greatest number in them, `cur_xid` may be the last key. -/
theorem dbListKeys_currentXid_last (hmark : b.marked = true) :
    ∃ ks, DbListKeys b.keys (fun _ => (-1, -1)) (ks ++ [currentXid]) := by
  have hperm := List.mergeSort_perm b.xids (fun x y => decide (x ≤ y))
  have hsorted : (b.xids.mergeSort fun x y => decide (x ≤ y)).Pairwise fun x y => decide (x ≤ y) = true := by
    refine List.pairwise_mergeSort ?_ ?_ b.xids
    · intro x y z hxy hyz
      exact decide_eq_true (UInt32.le_trans (of_decide_eq_true hxy) (of_decide_eq_true hyz))
    · intro x y
      rcases UInt32.le_total x y with hle | hle <;> simp [hle]
  refine ⟨(b.xids.mergeSort fun x y => decide (x ≤ y)).map keyOf, b.keys, List.Perm.refl _, (qsort_const _).mpr ⟨?_, ?_⟩⟩
  · rw [Bucket.keys, hmark, if_pos rfl]
    exact (hperm.map keyOf).append_right _
  · rw [List.pairwise_append]
    refine ⟨List.pairwise_map.mpr (hsorted.imp fun {x y} hxy => ?_), List.pairwise_singleton _ _, ?_⟩
    · rw [valueWith, valueWith, sscanfD_keyOf, sscanfD_keyOf]
      exact of_decide_eq_true hxy
    · intro x _ y hy
      rw [List.mem_singleton.mp hy, valueWith, valueWith, sscanfD_currentXid]
      exact le_neg_one _

/-- Where they have different numbers in them, the keys may come in any order. -/
theorem dbListKeys_of_perm {x : UInt32} (hx : x ∈ b.xids) (hperm : ks.Perm b.keys) :
    ∃ uninit, DbListKeys b.keys uninit ks := by
  refine ⟨fun n => if n = 0 then (0, 0) else (-1, -1), b.keys, List.Perm.refl _, hperm, fun le _ _ hagree => ?_⟩
  have hkey : keyOf x ∈ b.keys := mem_keys.mpr (.inl ⟨x, hx, rfl⟩)
  have hcur : currentXid ∈ b.keys := mem_keys.mpr (.inr ⟨b.marked_of_ne_nil (List.ne_nil_of_mem hx), rfl⟩)
  have hfirst : (keysCompare (0, 0) (keyOf x) currentXid ≤ 0 ↔ le (keyOf x) currentXid) ∧
      (0 ≤ keysCompare (0, 0) (keyOf x) currentXid ↔ le currentXid (keyOf x)) := hagree 0 _ hkey _ hcur
  have hsecond : (keysCompare (-1, -1) (keyOf x) currentXid ≤ 0 ↔ le (keyOf x) currentXid) ∧
      (0 ≤ keysCompare (-1, -1) (keyOf x) currentXid ↔ le currentXid (keyOf x)) := hagree 1 _ hkey _ hcur
  simp only [keysCompare_const, valueWith, sscanfD_keyOf, sscanfD_currentXid] at hfirst hsecond
  -- the second call finds `x` at most `cur_xid`, so it has to be 0; then the first call finds them equal
  have hle : le (keyOf x) currentXid := hsecond.1.mp (le_neg_one x)
  have hzero : x = 0 := UInt32.le_zero_iff.mp (hfirst.1.mpr hle)
  have hge : le currentXid (keyOf x) := hfirst.2.mp (hzero ▸ UInt32.le_refl _)
  have habsurd := hsecond.2.mpr hge
  rw [hzero] at habsurd
  exact absurd habsurd (by decide)

theorem not_replayedInOrder {x : UInt32} (hx : x ∈ b.xids) (hne : x ≠ 0) : ¬ b.ReplayedInOrder := by
  intro h
  obtain ⟨ks, hks⟩ := dbListKeys_currentXid_last (b.marked_of_ne_nil (List.ne_nil_of_mem hx))
  obtain ⟨-, -, k, hk, hmax, -⟩ := h _ _ hks
  have hzero : k = 0 := by
    rw [ospf6DbLastKey, List.getLast?_concat, Option.map_some, strtol_currentXid] at hk
    exact (Option.some.inj hk).symm
  exact hne (UInt32.le_zero_iff.mp (hzero ▸ hmax x hx))

theorem replayedInOrder_of_zero (hmark : b.marked = true) (hzero : ∀ x ∈ b.xids, x = 0) : b.ReplayedInOrder := by
  intro uninit ks hks
  have hperm := restartXids_perm hks.perm
  have hsub {x : UInt32} (hx : x ∈ restartXids ks) : x = 0 := hzero x (hperm.mem_iff.mp hx)
  -- there is at most one message, so any order will do
  have hsorted : (restartXids ks).Pairwise (· < ·) := by
    refine List.Pairwise.imp_of_mem ?_ (hperm.nodup_iff.mpr b.nodup)
    intro x y hx hy hne
    exact absurd ((hsub hx).trans (hsub hy).symm) hne
  have hlast : ospf6DbLastKey ks = some 0 := by
    have hne : ks ≠ [] := by
      rintro rfl
      have hmem : currentXid ∈ b.keys := mem_keys.mpr (.inr ⟨hmark, rfl⟩)
      exact List.not_mem_nil (hks.perm.mem_iff.mpr hmem)
    rw [ospf6DbLastKey, List.getLast?_eq_some_getLast hne, Option.map_some]
    rcases mem_keys.mp (hks.perm.mem_iff.mp (List.getLast_mem hne)) with ⟨x, hx, hkey⟩ | ⟨-, hkey⟩
    · rw [← hkey, strtol_keyOf, hzero x hx]
    · rw [hkey, strtol_currentXid]
  refine ⟨hperm, hsorted, 0, hlast, fun x hx => UInt32.le_of_eq (hzero x hx), fun hne => ?_⟩
  obtain ⟨x, hx⟩ := List.exists_mem_of_ne_nil _ hne
  exact hzero x hx ▸ hx

end Listing

/-- The buckets that are replayed in order on every run: those with `cur_xid` and no message but one of transaction id
0. -/
theorem replayedInOrder_iff (b : Bucket) : b.ReplayedInOrder ↔ b.marked = true ∧ ∀ x ∈ b.xids, x = 0 := by
  constructor
  · intro h
    have hzero : ∀ x ∈ b.xids, x = 0 := fun x hx => by
      by_contra hne
      exact not_replayedInOrder hx hne h
    refine ⟨?_, hzero⟩
    by_contra hmark
    -- the bucket is empty, and the last key is read before the array
    have hnil : b.xids = [] := by
      by_contra hne
      exact hmark (b.marked_of_ne_nil hne)
    have hkeys : b.keys = [] := by
      rw [Bucket.keys, hnil, if_neg hmark]
      rfl
    have hlist : DbListKeys b.keys (fun _ => (0, 0)) [] :=
      ⟨[], hkeys ▸ List.Perm.refl _, List.Perm.refl _, fun _ _ _ _ => List.Pairwise.nil⟩
    obtain ⟨-, -, k, hk, -⟩ := h _ _ hlist
    exact absurd hk (by simp [ospf6DbLastKey])
  · rintro ⟨hmark, hzero⟩
    exact replayedInOrder_of_zero hmark hzero

/-- One message, of transaction id 1: `cur_xid` is listed last, and the last key is read as 0. -/
theorem one_message_not_replayedInOrder : ¬ (Bucket.empty.put 1).ReplayedInOrder :=
  not_replayedInOrder (x := 1) (by decide) (by decide)

end Harry.Checkpoint
