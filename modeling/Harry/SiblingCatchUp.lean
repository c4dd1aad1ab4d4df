import Harry.CheckpointKeys
import Harry.SiblingRestart

/-! A restarted sibling catches up (`ospf6_catchup_start`): it passes on what the leader has stored since its own last
key, up to the `cur_xid` of the leader, and then what has come in meanwhile from there on. Both sides take in the message
with the `cur_xid` of the leader. -/

namespace Harry.Restart

open Harry.Checkpoint

/-- `ospf6_db_get_xid`, for what is under `cur_xid`. -/
def ospf6DbGetXid : Option (List Char) → UInt32
  | none => -1
  | some data => strtol data

/-- `db_range_keys` with sorting: the store lists the keys of the range in some order. `uninit` is what the variables of
`keys_compare` have in them. -/
def DbRangeKeys (keys : List UInt32) (startXid endXid : UInt32) (uninit : Nat → UInt32 × UInt32)
    (result : List (List Char)) : Prop :=
  ∃ listing, listing.Perm ((dbRangeKeys keys startXid endXid).map keyOf) ∧
    Qsort (fun n => keysCompare (uninit n)) listing result

/-- `ospf6_catchup_start`: the messages that are passed to `ospf6_receive`, by their transaction ids. -/
def Ospf6CatchupStart (lastKey : UInt32) (leaderKeys : List UInt32) (curXid : Option (List Char))
    (restartMsgQueue : List UInt32) (uninit : Nat → UInt32 × UInt32) (out : List UInt32) : Prop :=
  ∃ ks, DbRangeKeys leaderKeys (lastKey + 1) (ospf6DbGetXid curXid) uninit ks ∧
    out = ks.map strtol ++ restartMsgQueue.filter fun xid => ¬ xid < ospf6DbGetXid curXid

/-- The messages of the group: those in the bucket of the leader, and those that come later. The queue has the later ones,
and those of the leader from `start` on. -/
structure CatchUp where
  lastKey : UInt32
  leaderLog : List UInt32
  leaderXid : UInt32
  later : List UInt32
  start : Nat
  increasing : (leaderLog ++ later).Pairwise (· < ·)
  last : leaderLog.getLast? = some leaderXid
  behind : lastKey < leaderXid

namespace CatchUp

variable (c : CatchUp)

def queue : List UInt32 := c.leaderLog.drop c.start ++ c.later

/-- What is passed on is what comes after the last key, in order. -/
def ExactlyOnce : Prop :=
  ∀ uninit out, Ospf6CatchupStart c.lastKey c.leaderLog (some (keyOf c.leaderXid)) c.queue uninit out →
    out = (c.leaderLog ++ c.later).filter (c.lastKey < ·)

end CatchUp

theorem keysCompare_keyOf (u : UInt32 × UInt32) (x y : UInt32) :
    keysCompare u (keyOf x) (keyOf y) = keysCompare (0, 0) (keyOf x) (keyOf y) := by
  simp only [keysCompare, sscanfD_keyOf]

/-- Keys of messages are sorted, whatever the variables have in them. -/
theorem DbRangeKeys.eq {keys : List UInt32} (hkeys : keys.Pairwise (· < ·)) {startXid endXid : UInt32}
    {uninit : Nat → UInt32 × UInt32} {ks : List (List Char)} (h : DbRangeKeys keys startXid endXid uninit ks) :
    ks.map strtol = dbRangeKeys keys startXid endXid := by
  obtain ⟨listing, hlisting, hqsort⟩ := h
  have hkey : ∀ key ∈ listing, ∃ x, keyOf x = key := by
    intro key hmem
    obtain ⟨x, -, hx⟩ := List.mem_map.mp (hlisting.mem_iff.mp hmem)
    exact ⟨x, hx⟩
  have hsame : Qsort (fun _ => keysCompare (0, 0)) listing ks := by
    refine ⟨hqsort.1, fun le htotal htrans hagree => hqsort.2 le htotal htrans fun n a ha b hb => ?_⟩
    obtain ⟨x, rfl⟩ := hkey a ha
    obtain ⟨y, rfl⟩ := hkey b hb
    have hcall := hagree n _ ha _ hb
    simp only at hcall ⊢
    rw [keysCompare_keyOf]
    exact hcall
  obtain ⟨hperm, hsorted⟩ := (qsort_const 0).mp hsame
  have hrange : (ks.map strtol).Perm (dbRangeKeys keys startXid endXid) := by
    have hmap := (hperm.trans hlisting).map strtol
    rw [List.map_map] at hmap
    have hid : (dbRangeKeys keys startXid endXid).map (strtol ∘ keyOf) = dbRangeKeys keys startXid endXid :=
      (List.map_congr_left fun x _ => strtol_keyOf x).trans (List.map_id _)
    rwa [hid] at hmap
  have hle : (ks.map strtol).Pairwise (· ≤ ·) := by
    refine List.pairwise_map.mpr (hsorted.imp_of_mem ?_)
    intro a b ha hb hab
    obtain ⟨x, rfl⟩ := hkey a (hperm.mem_iff.mp ha)
    obtain ⟨y, rfl⟩ := hkey b (hperm.mem_iff.mp hb)
    rwa [valueWith, valueWith, sscanfD_keyOf, sscanfD_keyOf, ← strtol_keyOf x, ← strtol_keyOf y] at hab
  have hle' : (dbRangeKeys keys startXid endXid).Pairwise (· ≤ ·) :=
    (hkeys.filter _).imp fun hlt => UInt32.le_of_lt hlt
  exact hrange.eq_of_pairwise (fun _ _ _ _ hab hba => UInt32.le_antisymm hab hba) hle hle'

theorem dbRangeKeys_map {keys : List UInt32} (hkeys : keys.Pairwise (· < ·)) (startXid endXid : UInt32) :
    DbRangeKeys keys startXid endXid (fun _ => (0, 0)) ((dbRangeKeys keys startXid endXid).map keyOf) := by
  refine ⟨_, List.Perm.refl _, (qsort_const 0).mpr ⟨List.Perm.refl _, List.pairwise_map.mpr ?_⟩⟩
  refine (hkeys.filter _).imp fun {x y} hlt => ?_
  rw [valueWith, valueWith, sscanfD_keyOf, sscanfD_keyOf]
  exact UInt32.le_of_lt hlt

namespace CatchUp

variable (c : CatchUp)

/-- The range does not cross the numbers that are printed as negative ones. -/
def SameSign : Prop := c.lastKey.toNat + 1 < 2 ^ 31 ↔ c.leaderXid.toNat < 2 ^ 31

variable {c}

theorem log_increasing : c.leaderLog.Pairwise (· < ·) := (List.pairwise_append.mp c.increasing).1

theorem leaderXid_mem : c.leaderXid ∈ c.leaderLog := List.mem_of_getLast? c.last

theorem le_leaderXid {x : UInt32} (hx : x ∈ c.leaderLog) : x ≤ c.leaderXid := by
  obtain ⟨ys, hys⟩ := List.getLast?_eq_some_iff.mp c.last
  have hinc := c.log_increasing
  rw [hys] at hx hinc
  rcases List.mem_append.mp hx with hx | hx
  · exact UInt32.le_of_lt ((List.pairwise_append.mp hinc).2.2 x hx _ (List.mem_singleton_self _))
  · exact UInt32.le_of_eq (List.mem_singleton.mp hx)

theorem leaderXid_lt {x : UInt32} (hx : x ∈ c.later) : c.leaderXid < x :=
  (List.pairwise_append.mp c.increasing).2.2 _ leaderXid_mem x hx

theorem toNat_lastKey_add_one : (c.lastKey + 1).toNat = c.lastKey.toNat + 1 := by
  have hlt := UInt32.lt_iff_toNat_lt.mp c.behind
  have hbound := c.leaderXid.toNat_lt
  have hone : (1 : UInt32).toNat = 1 := rfl
  rw [UInt32.toNat_add, hone]
  exact Nat.mod_eq_of_lt (by omega)

theorem dbRangeKeys_of_sameSign (h : c.SameSign) :
    dbRangeKeys c.leaderLog (c.lastKey + 1) c.leaderXid = c.leaderLog.filter (c.lastKey < ·) := by
  refine List.filter_congr fun x hx => decide_eq_decide.mpr ?_
  have hle := UInt32.le_iff_toNat_le.mp (le_leaderXid hx)
  have hbound := c.leaderXid.toNat_lt
  have hstart := c.toNat_lastKey_add_one
  rw [SameSign] at h
  rw [UInt32.lt_iff_toNat_lt]
  simp only [asInt, hstart]
  split <;> split <;> split <;> omega

theorem dbRangeKeys_of_not_sameSign (h : ¬ c.SameSign) :
    dbRangeKeys c.leaderLog (c.lastKey + 1) c.leaderXid = [] := by
  refine List.filter_eq_nil_iff.mpr fun x hx => ?_
  have hle := UInt32.le_iff_toNat_le.mp (le_leaderXid hx)
  have hlt := UInt32.lt_iff_toNat_lt.mp c.behind
  have hbound := c.leaderXid.toNat_lt
  have hstart := c.toNat_lastKey_add_one
  rw [SameSign] at h
  rw [decide_eq_true_iff]
  simp only [asInt, hstart]
  split <;> split <;> split <;> omega

/-! ### What is passed on -/

/-- Of the queue it is what comes later, and the message with the `cur_xid` of the leader if that is in the queue. -/
theorem filter_queue : c.queue.filter (fun xid => ¬ xid < c.leaderXid) =
    (if c.leaderXid ∈ c.queue then [c.leaderXid] else []) ++ c.later := by
  have hlater : c.later.filter (fun xid => ¬ xid < c.leaderXid) = c.later :=
    List.filter_eq_self.mpr fun x hx => decide_eq_true (UInt32.not_lt.mpr (UInt32.le_of_lt (leaderXid_lt hx)))
  have hmem : c.leaderXid ∈ c.queue ↔ c.leaderXid ∈ c.leaderLog.drop c.start := by
    rw [queue, List.mem_append, or_iff_left]
    exact fun hx => UInt32.lt_irrefl _ (leaderXid_lt hx)
  have hlog : (c.leaderLog.drop c.start).filter (fun xid => ¬ xid < c.leaderXid) =
      if c.leaderXid ∈ c.leaderLog.drop c.start then [c.leaderXid] else [] := by
    obtain ⟨ys, hys⟩ := List.getLast?_eq_some_iff.mp c.last
    have hinc := c.log_increasing
    rw [hys] at hinc
    have hbelow : ∀ x ∈ ys.drop c.start, x < c.leaderXid := fun x hx =>
      (List.pairwise_append.mp hinc).2.2 x (List.mem_of_mem_drop hx) _ (List.mem_singleton_self _)
    have hnone : (ys.drop c.start).filter (fun xid => ¬ xid < c.leaderXid) = [] :=
      List.filter_eq_nil_iff.mpr fun x hx => by simpa using hbelow x hx
    have hout : c.leaderXid ∉ ys.drop c.start := fun hx => UInt32.lt_irrefl _ (hbelow _ hx)
    have hdrop : c.leaderLog.drop c.start = ys.drop c.start ++ [c.leaderXid].drop (c.start - ys.length) := by
      rw [hys, List.drop_append]
    rw [hdrop, List.filter_append, hnone, List.nil_append]
    cases c.start - ys.length with
    | zero => simp
    | succ n => simp [hout]
  rw [queue, List.filter_append, hlater, hlog, ← queue]
  simp only [hmem]

theorem ospf6DbGetXid_keyOf (xid : UInt32) : ospf6DbGetXid (some (keyOf xid)) = xid := strtol_keyOf xid

theorem ospf6CatchupStart_iff {out : List UInt32} :
    (∃ uninit, Ospf6CatchupStart c.lastKey c.leaderLog (some (keyOf c.leaderXid)) c.queue uninit out) ↔
      out = dbRangeKeys c.leaderLog (c.lastKey + 1) c.leaderXid ++
        ((if c.leaderXid ∈ c.queue then [c.leaderXid] else []) ++ c.later) := by
  rw [← filter_queue]
  constructor
  · rintro ⟨uninit, ks, hks, hout⟩
    rw [ospf6DbGetXid_keyOf] at hks hout
    rw [hout, hks.eq c.log_increasing]
  · intro hout
    have hks := dbRangeKeys_map c.log_increasing (c.lastKey + 1) c.leaderXid
    refine ⟨fun _ => (0, 0), (dbRangeKeys c.leaderLog (c.lastKey + 1) c.leaderXid).map keyOf, ?_, ?_⟩
    · rw [ospf6DbGetXid_keyOf]
      exact hks
    · rw [ospf6DbGetXid_keyOf, hout, hks.eq c.log_increasing]

theorem exactlyOnce_iff_eq : c.ExactlyOnce ↔
    dbRangeKeys c.leaderLog (c.lastKey + 1) c.leaderXid ++ (if c.leaderXid ∈ c.queue then [c.leaderXid] else []) =
      c.leaderLog.filter (c.lastKey < ·) := by
  have hlater : c.later.filter (c.lastKey < ·) = c.later :=
    List.filter_eq_self.mpr fun x hx => decide_eq_true (UInt32.lt_trans c.behind (leaderXid_lt hx))
  rw [← List.append_left_inj c.later, List.append_assoc]
  constructor
  · intro h
    obtain ⟨uninit, hrun⟩ := ospf6CatchupStart_iff.mpr rfl
    rw [h uninit _ hrun, List.filter_append, hlater]
  · intro h uninit out hrun
    rw [ospf6CatchupStart_iff.mp ⟨uninit, hrun⟩, h, List.filter_append, hlater]

/-- The message with the `cur_xid` of the leader is the only one after the last key. -/
theorem singleton_eq_filter_iff : [c.leaderXid] = c.leaderLog.filter (c.lastKey < ·) ↔
    ∀ x ∈ c.leaderLog, c.lastKey < x → c.leaderXid ≤ x := by
  constructor
  · intro heq x hx hlt
    have hmem : x ∈ c.leaderLog.filter (c.lastKey < ·) := List.mem_filter.mpr ⟨hx, decide_eq_true hlt⟩
    rw [← heq] at hmem
    exact UInt32.le_of_eq (List.mem_singleton.mp hmem).symm
  · intro h
    have : Std.Irrefl (fun x y : UInt32 => x < y) := ⟨UInt32.lt_irrefl⟩
    refine List.Pairwise.eq_of_mem_iff (List.pairwise_singleton _ _) (c.log_increasing.filter _) fun x => ?_
    rw [List.mem_singleton, List.mem_filter, decide_eq_true_iff]
    constructor
    · rintro rfl
      exact ⟨leaderXid_mem, c.behind⟩
    · rintro ⟨hx, hlt⟩
      exact UInt32.le_antisymm (le_leaderXid hx) (h x hx hlt)

end CatchUp

/-- Each message after the last key is passed on once and in order if the range of the leader is one of numbers of one
sign and the queue begins after it. In a range of both signs nothing is found, which does no harm if there is nothing but
the message with the `cur_xid` of the leader, and that is in the queue. -/
theorem exactlyOnce_iff (c : CatchUp) : c.ExactlyOnce ↔
    c.SameSign ∧ c.leaderXid ∉ c.queue ∨
      ¬ c.SameSign ∧ c.leaderXid ∈ c.queue ∧ ∀ x ∈ c.leaderLog, c.lastKey < x → c.leaderXid ≤ x := by
  rw [CatchUp.exactlyOnce_iff_eq]
  by_cases hsame : c.SameSign
  · rw [CatchUp.dbRangeKeys_of_sameSign hsame, List.append_right_eq_self]
    by_cases hqueue : c.leaderXid ∈ c.queue <;> simp [hsame, hqueue]
  · rw [CatchUp.dbRangeKeys_of_not_sameSign hsame, List.nil_append]
    by_cases hqueue : c.leaderXid ∈ c.queue
    · simp only [hsame, hqueue, if_true, false_and, false_or, not_false_eq_true, true_and]
      exact CatchUp.singleton_eq_filter_iff
    · have hmem : c.leaderXid ∈ c.leaderLog.filter (c.lastKey < ·) :=
        List.mem_filter.mpr ⟨CatchUp.leaderXid_mem, decide_eq_true c.behind⟩
      simp only [hsame, hqueue, if_false, false_and, and_false, or_self, iff_false]
      exact fun hnil => List.ne_nil_of_mem hmem hnil.symm

/-- The queue begins with the last message of the leader, which is passed on twice. -/
theorem queueAtLeader_not_exactlyOnce :
    ¬ (CatchUp.mk 1 [1, 2] 2 [] 1 (by decide) (by decide) (by decide)).ExactlyOnce := by
  rw [CatchUp.exactlyOnce_iff_eq]
  decide

end Harry.Restart
