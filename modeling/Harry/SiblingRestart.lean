import Mathlib.Algebra.Group.Nat.Defs
import Mathlib.Data.List.Sort
import Harry.BaseExec
import Harry.CheckpointKeys

/-! The restart of a sibling. A thread of its own (`ospf6_restart_start`) replays what the sibling has in its bucket,
then what the leader has in its bucket up to the first message that has come in since, then the messages that the reader
of `ctrl_client_read` has put into a queue meanwhile, and ends restart mode; from then on the reader hands over messages
itself. The sections under a mutex are the steps, in any interleaving of the two threads. -/

namespace Harry.Restart

open Harry.Base Harry.Checkpoint

/-- An ingress message: its transaction id, and whether the handlers store messages of its kind (Hello and Database
Description). -/
structure Ingress where
  xid : UInt32
  stored : Bool
  deriving DecidableEq

/-- The transaction ids of the messages that a bucket has, as far as they are stored. -/
def bucket (ms : List Ingress) : List UInt32 := (ms.filter Ingress.stored).map Ingress.xid

/-- The bucket that they are put into, one after the other. -/
def bucketOf (ms : List Ingress) : Bucket := (bucket ms).foldl Bucket.put Bucket.empty

/-- The ingress messages of the group, in order: the first `own` of them were handled by the sibling before it went
down, and it reads those from `live` on. `keys` is what `db_list_keys` makes of its bucket, whatever the variables of
`keys_compare` have in them, and `uninit` is what `last_key_to_process` is before it is assigned. -/
structure Group where
  stream : List Ingress
  own : Nat
  live : Nat
  keys : List (List Char)
  uninit : UInt32
  increasing : (stream.map Ingress.xid).Pairwise (· < ·)
  pos : ∀ m ∈ stream, 0 < m.xid
  own_le : own ≤ live
  live_le : live ≤ stream.length
  listed : ∃ stack, DbListKeys (bucketOf (stream.take own)).keys stack keys

namespace Group

variable (g : Group)

/-- The messages that were handled before. -/
def handled : List Ingress := g.stream.take g.own

/-- The messages that the group had in between. -/
def missed : List Ingress := (g.stream.take g.live).drop g.own

/-- The messages of the connections. -/
def coming : List Ingress := g.stream.drop g.live

end Group

/-- A number as `%d` prints it and the index takes it. -/
def asInt (x : UInt32) : Int := if x.toNat < 2 ^ 31 then x.toNat else x.toNat - 2 ^ 32

/-- `db_range_keys`, for keys in their order, which it gives in that order (`DbRangeKeys.eq`). -/
def dbRangeKeys (keys : List UInt32) (startXid endXid : UInt32) : List UInt32 :=
  keys.filter fun x => asInt startXid ≤ asInt x ∧ asInt x ≤ asInt endXid

/-- Where the restart thread is. -/
inductive RestartPc where
  | listKeys
  /-- The keys of the own bucket that are still to be replayed. -/
  | own (keys : List UInt32)
  /-- About to take `first_xid_mutex`. -/
  | firstXid
  | rangeKeys (firstXidRcvd : UInt32)
  | leader (keys : List UInt32)
  /-- About to walk the queue. -/
  | walkQueue
  /-- About to end restart mode. -/
  | endRestartMode
  | done
  deriving DecidableEq

/-- Where the reader is with a message. -/
inductive ReaderPc where
  | idle
  /-- It has found restart mode on, and is about to put the message into the queue. -/
  | push (xid : UInt32)
  /-- It is about to unlock `first_xid_mutex`. -/
  | unlock
  /-- It has found restart mode off. -/
  | receive (xid : UInt32)
  deriving DecidableEq

/-- `leaderCount` messages have been handled by the leader. -/
structure State where
  restart : RestartPc
  lastKeyToProcess : UInt32
  reader : ReaderPc
  restartMsgQueue : List UInt32
  restartMode : Bool
  firstXidMutex : Bool
  unread : List UInt32
  leaderCount : Nat

inductive Event where
  | restart
  | reader
  /-- The leader handles a message. -/
  | leader
  /-- Leader election completes (`sibling_ctrl_update_state`), which unlocks `first_xid_mutex`. -/
  | leadElectCompl
  deriving DecidableEq

namespace State

variable (g : Group) (s : State)

/-- `sibling_ctrl_first_xid_rcvd`. -/
def firstXidRcvd : UInt32 := s.restartMsgQueue.head?.getD (-1)

/-- The next section of `ospf6_restart_start`. The outputs are the messages that are passed to `ospf6_receive`. -/
def restartStep : Exec UInt32 State :=
  match s.restart with
  | .listKeys => pure { s with restart := .own (restartXids g.keys) }
  | .own [] => pure { s with restart := .firstXid }
  | .own (xid :: keys) => do
      Exec.emit xid
      pure { s with restart := .own keys, lastKeyToProcess := xid }
  | .firstXid => if s.firstXidMutex then pure s else pure { s with restart := .rangeKeys s.firstXidRcvd }
  | .rangeKeys firstXidRcvd =>
      let keys := dbRangeKeys (bucket (g.stream.take s.leaderCount)) (s.lastKeyToProcess + 1) (firstXidRcvd - 1)
      pure { s with restart := .leader keys }
  | .leader [] => pure { s with restart := .walkQueue }
  | .leader (xid :: keys) => do
      Exec.emit xid
      pure { s with restart := .leader keys }
  | .walkQueue => do
      -- nothing is taken out of the queue
      Exec.emits s.restartMsgQueue
      pure { s with restart := .endRestartMode }
  | .endRestartMode => pure { s with restart := .done, restartMode := false }
  | .done => pure s

/-- The next section of the `RFPT_FORWARD_OSPF6` branch of `ctrl_client_read`. -/
def readerStep : Exec UInt32 State :=
  match s.reader with
  | .idle =>
      match s.unread with
      | [] => pure s
      | xid :: xids => pure { s with reader := if s.restartMode then .push xid else .receive xid, unread := xids }
  | .push xid => pure { s with restartMsgQueue := s.restartMsgQueue ++ [xid], reader := .unlock }
  | .unlock => pure { s with firstXidMutex := false, reader := .idle }
  | .receive xid => do
      Exec.emit xid
      pure { s with reader := .idle }

/-- Leader election completes in the thread of the reader, so between two messages. -/
def step : Event → Exec UInt32 State
  | .restart => s.restartStep g
  | .reader => s.readerStep
  | .leader => pure { s with leaderCount := s.leaderCount + 1 }
  | .leadElectCompl =>
      if s.reader = .idle ∧ s.restartMode = true then pure { s with firstXidMutex := false } else pure s

end State

def machine (g : Group) : Machine State Event UInt32 := ⟨State.step g⟩

/-- `ospf6_restart_init`. -/
def Group.start (g : Group) (leaderCount : Nat) : State where
  restart := .listKeys
  lastKeyToProcess := g.uninit
  reader := .idle
  restartMsgQueue := []
  restartMode := true
  firstXidMutex := true
  unread := g.coming.map Ingress.xid
  leaderCount := leaderCount

/-- What the sibling has read or the group had before. -/
def delivered (g : Group) (s : State) : List UInt32 :=
  (g.stream.take (g.stream.length - s.unread.length)).map Ingress.xid

/-- Messages are passed to `ospf6_receive` in the order of their ids and none twice. When restart mode is over, and the
reader is not in the middle of a message, all have been, and the queue has none that has not. -/
def ExactlyOnce (g : Group) (os : List UInt32) (s : State) : Prop :=
  os.Pairwise (· < ·) ∧ (s.restart = .done → s.reader = .idle →
    (∀ x, x ∈ os ↔ x ∈ delivered g s) ∧ ∀ x ∈ s.restartMsgQueue, x ∈ os)

/-- All that was handled before is of a kind that is stored, and the keys are listed in their order. A first message is
in the queue when its id is read, or nothing was missed. What was missed is in the bucket of the leader when it is read,
and between the two ends of the range. -/
def RestartSafe (g : Group) (s : State) : RestartPc → Prop
  | .listKeys => (∀ m ∈ g.handled, m.stored = true) ∧ (restartXids g.keys).Pairwise (· < ·)
  | .firstXid => s.firstXidMutex = false → s.restartMsgQueue ≠ [] ∨ g.missed = []
  | .rangeKeys firstXidRcvd => s.lastKeyToProcess.toNat + 1 < 2 ^ 31 ∧
      ∀ m ∈ g.missed, m.stored = true ∧ m ∈ g.stream.take s.leaderCount ∧ s.lastKeyToProcess < m.xid ∧
        firstXidRcvd.toNat ≤ 2 ^ 31
  | _ => True

/-- The reader does not put anything into the queue after the walk. -/
def ReaderSafe (s : State) : ReaderPc → Prop
  | .push _ => s.restart ≠ .endRestartMode ∧ s.restart ≠ .done
  | _ => True

def StepSafe (g : Group) (s : State) : Event → Prop
  | .restart => RestartSafe g s s.restart
  | .reader => ReaderSafe s s.reader
  | _ => True

instance (g : Group) (s : State) (pc : RestartPc) : Decidable (RestartSafe g s pc) :=
  match pc with
  | .listKeys => inferInstanceAs
      (Decidable ((∀ m ∈ g.handled, m.stored = true) ∧ (restartXids g.keys).Pairwise (· < ·)))
  | .firstXid => inferInstanceAs (Decidable (s.firstXidMutex = false → s.restartMsgQueue ≠ [] ∨ g.missed = []))
  | .rangeKeys firstXidRcvd => inferInstanceAs (Decidable (s.lastKeyToProcess.toNat + 1 < 2 ^ 31 ∧
      ∀ m ∈ g.missed, m.stored = true ∧ m ∈ g.stream.take s.leaderCount ∧ s.lastKeyToProcess < m.xid ∧
        firstXidRcvd.toNat ≤ 2 ^ 31))
  | .own _ | .leader _ | .walkQueue | .endRestartMode | .done => isTrue trivial

instance (s : State) (pc : ReaderPc) : Decidable (ReaderSafe s pc) :=
  match pc with
  | .push _ => inferInstanceAs (Decidable (s.restart ≠ .endRestartMode ∧ s.restart ≠ .done))
  | .idle | .unlock | .receive _ => isTrue trivial

instance (g : Group) (s : State) (e : Event) : Decidable (StepSafe g s e) :=
  match e with
  | .restart => inferInstanceAs (Decidable (RestartSafe g s s.restart))
  | .reader => inferInstanceAs (Decidable (ReaderSafe s s.reader))
  | .leader | .leadElectCompl => isTrue trivial

section Sources

variable (g : Group)

theorem handled_append_missed : g.handled ++ g.missed = g.stream.take g.live := by
  have htake : g.handled = (g.stream.take g.live).take g.own := by
    rw [Group.handled, List.take_take, Nat.min_eq_left g.own_le]
  rw [htake, Group.missed, List.take_append_drop]

/-- The stream is what was handled, what was missed, and what comes. -/
theorem stream_eq : g.handled ++ g.missed ++ g.coming = g.stream := by
  rw [handled_append_missed, Group.coming, List.take_append_drop]

theorem xids_increasing :
    (g.handled.map Ingress.xid ++ g.missed.map Ingress.xid ++ g.coming.map Ingress.xid).Pairwise (· < ·) := by
  rw [← List.map_append, ← List.map_append, stream_eq]
  exact g.increasing

theorem bucket_eq_map {ms : List Ingress} (h : ∀ m ∈ ms, m.stored = true) : bucket ms = ms.map Ingress.xid := by
  rw [bucket, List.filter_eq_self.mpr h]

theorem foldl_put_perm {xs : List UInt32} : ∀ {b : Bucket}, (b.xids ++ xs).Nodup →
    (xs.foldl Bucket.put b).xids.Perm (b.xids ++ xs) := by
  induction xs with
  | nil =>
      intro b _
      rw [List.append_nil]
      exact List.Perm.refl _
  | cons x xs ih =>
      intro b hnodup
      have hperm : ((b.put x).xids ++ xs).Perm (b.xids ++ x :: xs) := by
        have hx : x ∉ b.xids := fun hmem =>
          (List.nodup_append.mp hnodup).2.2 x hmem x List.mem_cons_self rfl
        have hxids : (b.put x).xids = x :: b.xids := List.insert_of_not_mem hx
        rw [hxids]
        exact List.perm_middle.symm
      exact (ih (hperm.nodup_iff.mpr hnodup)).trans hperm

/-- In order the keys are those of the messages. -/
theorem restartXids_eq (hstored : ∀ m ∈ g.handled, m.stored = true)
    (hsorted : (restartXids g.keys).Pairwise (· < ·)) : restartXids g.keys = g.handled.map Ingress.xid := by
  have hinc : (g.handled.map Ingress.xid).Pairwise (· < ·) :=
    (List.pairwise_append.mp (List.pairwise_append.mp (xids_increasing g)).1).1
  have hbucket : bucket g.handled = g.handled.map Ingress.xid := bucket_eq_map hstored
  have hnodup : (Bucket.empty.xids ++ bucket g.handled).Nodup := by
    rw [hbucket]
    have hne : (g.handled.map Ingress.xid).Pairwise (· ≠ ·) := hinc.imp UInt32.ne_of_lt
    exact hne
  obtain ⟨_, hlisted⟩ := g.listed
  have hperm : (restartXids g.keys).Perm (g.handled.map Ingress.xid) := by
    rw [← hbucket]
    exact (restartXids_perm hlisted.perm).trans (foldl_put_perm hnodup)
  exact hperm.eq_of_pairwise (fun _ _ _ _ hab hba => (UInt32.lt_asymm hab hba).elim) hsorted hinc

/-- A message in the buckets is one of the stream. -/
theorem mem_bucket {ms : List Ingress} {x : UInt32} (h : x ∈ bucket ms) : ∃ m ∈ ms, m.stored = true ∧ m.xid = x := by
  obtain ⟨m, hm, rfl⟩ := List.mem_map.mp h
  obtain ⟨hmem, hstored⟩ := List.mem_filter.mp hm
  exact ⟨m, hmem, hstored, rfl⟩

theorem asInt_of_lt {x : UInt32} (h : x.toNat < 2 ^ 31) : asInt x = x.toNat := if_pos h

theorem asInt_neg {x : UInt32} (h : ¬ x.toNat < 2 ^ 31) : asInt x < 0 := by
  have := x.toNat_lt
  rw [asInt, if_neg h]
  omega

/-- A number that is in a range from a positive one is positive. -/
theorem toNat_of_le_asInt {x y : UInt32} (hx : x.toNat < 2 ^ 31) (h : asInt x ≤ asInt y) :
    y.toNat < 2 ^ 31 ∧ x.toNat ≤ y.toNat := by
  rw [asInt_of_lt hx] at h
  by_cases hy : y.toNat < 2 ^ 31
  · rw [asInt_of_lt hy] at h
    exact ⟨hy, by omega⟩
  · have := asInt_neg hy
    omega

theorem toNat_add_one {x : UInt32} (h : x.toNat + 1 < 2 ^ 31) : (x + 1).toNat = x.toNat + 1 := by
  rw [UInt32.toNat_add]
  show (x.toNat + 1) % 2 ^ 32 = x.toNat + 1
  omega

theorem toNat_sub_one {x : UInt32} (h : 0 < x) : (x - 1).toNat = x.toNat - 1 := by
  have hpos : 0 < x.toNat := UInt32.lt_iff_toNat_lt.mp h
  apply UInt32.toNat_sub_of_le
  rw [UInt32.le_iff_toNat_le]
  exact hpos

theorem coming_le_of_head {first : UInt32} (hfirst : (g.coming.map Ingress.xid).head? = some first) {m : Ingress}
    (hm : m ∈ g.coming) : first ≤ m.xid := by
  have hpair := (List.pairwise_append.mp (xids_increasing g)).2.1
  obtain ⟨xids, hxids⟩ := List.head?_eq_some_iff.mp hfirst
  have hmem : m.xid ∈ g.coming.map Ingress.xid := List.mem_map_of_mem hm
  rw [hxids] at hpair hmem
  rcases List.mem_cons.mp hmem with heq | hmem
  · rw [heq]
    exact UInt32.le_refl first
  · exact UInt32.le_of_lt ((List.pairwise_cons.mp hpair).1 _ hmem)

theorem missed_lt_of_head {first : UInt32} (hfirst : (g.coming.map Ingress.xid).head? = some first) {m : Ingress}
    (hm : m ∈ g.missed) : m.xid < first := by
  apply (List.pairwise_append.mp (xids_increasing g)).2.2
  · exact List.mem_append_right _ (List.mem_map_of_mem hm)
  · exact List.mem_of_mem_head? hfirst

/-- The range of the leader is what was missed. -/
theorem dbRangeKeys_eq {last first : UInt32} {count : Nat} (hlast : last.toNat + 1 < 2 ^ 31)
    (hhandled : ∀ m ∈ g.handled, m.xid ≤ last)
    (hfirst : (g.missed = [] ∧ first = -1) ∨ (g.coming.map Ingress.xid).head? = some first)
    (hmissed : ∀ m ∈ g.missed, m.stored = true ∧ m ∈ g.stream.take count ∧ last < m.xid ∧ first.toNat ≤ 2 ^ 31) :
    dbRangeKeys (bucket (g.stream.take count)) (last + 1) (first - 1) = g.missed.map Ingress.xid := by
  have hstart := toNat_add_one hlast
  have hsublist : (dbRangeKeys (bucket (g.stream.take count)) (last + 1) (first - 1)).Sublist
      (g.stream.map Ingress.xid) :=
    List.filter_sublist.trans ((List.filter_sublist.trans (List.take_sublist _ _)).map _)
  have hmap : (g.missed.map Ingress.xid).Sublist (g.stream.map Ingress.xid) :=
    ((List.drop_sublist _ _).trans (List.take_sublist _ _)).map _
  have : Std.Irrefl (fun x y : UInt32 => x < y) := ⟨UInt32.lt_irrefl⟩
  apply List.Pairwise.eq_of_mem_iff (g.increasing.sublist hsublist) (g.increasing.sublist hmap)
  intro x
  constructor
  · intro hx
    obtain ⟨hbucket, hrange⟩ := List.mem_filter.mp hx
    obtain ⟨hlow, hhigh⟩ := of_decide_eq_true hrange
    obtain ⟨m, hm, hstored, rfl⟩ := mem_bucket hbucket
    obtain ⟨hpos, hle⟩ := toNat_of_le_asInt (by omega) hlow
    have hstream : m ∈ g.handled ++ g.missed ++ g.coming := by
      rw [stream_eq]
      exact List.mem_of_mem_take hm
    rcases List.mem_append.mp hstream with hstream | hcoming
    · rcases List.mem_append.mp hstream with hdone | hmiss
      · have hle' := UInt32.le_iff_toNat_le.mp (hhandled m hdone)
        omega
      · exact List.mem_map_of_mem hmiss
    · -- what comes is past the end of the range
      exfalso
      rcases hfirst with ⟨-, rfl⟩ | hfirst
      · rw [asInt_of_lt hpos] at hhigh
        have hneg : asInt (-1 - 1) = -2 := by decide
        omega
      · have hge := UInt32.le_iff_toNat_le.mp (coming_le_of_head g hfirst hcoming)
        obtain ⟨-, hle'⟩ := toNat_of_le_asInt hpos hhigh
        obtain ⟨m', hm', hxid⟩ := List.mem_map.mp (List.mem_of_mem_head? hfirst)
        have hfirstPos : 0 < first := hxid ▸ g.pos m' (List.mem_of_mem_drop hm')
        rw [toNat_sub_one hfirstPos] at hle'
        have := UInt32.lt_iff_toNat_lt.mp hfirstPos
        have h0 : (0 : UInt32).toNat = 0 := rfl
        omega
  · intro hx
    obtain ⟨m, hm, rfl⟩ := List.mem_map.mp hx
    obtain ⟨hstored, htake, hlt, hbound⟩ := hmissed m hm
    rcases hfirst with ⟨hnil, -⟩ | hfirst
    · rw [hnil] at hm
      cases hm
    · have hltFirst := UInt32.lt_iff_toNat_lt.mp (missed_lt_of_head g hfirst hm)
      rw [UInt32.lt_iff_toNat_lt] at hlt
      have hpos : 0 < first := by
        rw [UInt32.lt_iff_toNat_lt]
        exact Nat.lt_of_le_of_lt (Nat.zero_le _) hltFirst
      have hend := toNat_sub_one hpos
      refine List.mem_filter.mpr ⟨List.mem_map_of_mem (List.mem_filter.mpr ⟨htake, hstored⟩), decide_eq_true ?_⟩
      rw [asInt_of_lt (x := last + 1) (by omega), asInt_of_lt (x := m.xid) (by omega),
        asInt_of_lt (x := first - 1) (by omega)]
      omega

end Sources

/-! ### The invariant -/

/-- The message that the reader is in the middle of. -/
def ReaderPc.held : ReaderPc → List UInt32
  | .push xid => [xid]
  | .receive xid => [xid]
  | _ => []

/-- How far the restart thread has come with the messages `os` that have been passed on; `direct` are those that the
reader has passed on itself. -/
def Progress (g : Group) (os direct : List UInt32) (last : UInt32) (queue : List UInt32) : RestartPc → Prop
  | .listKeys => os = []
  | .own keys => os ++ keys = g.handled.map Ingress.xid ∧ ∀ x ∈ os, x ≤ last
  | .firstXid => os = g.handled.map Ingress.xid ∧ ∀ x ∈ os, x ≤ last
  | .rangeKeys first => os = g.handled.map Ingress.xid ∧ (∀ x ∈ os, x ≤ last) ∧
      (g.missed = [] ∧ first = -1 ∨ (g.coming.map Ingress.xid).head? = some first)
  | .leader keys => os ++ keys = g.handled.map Ingress.xid ++ g.missed.map Ingress.xid
  | .walkQueue => os = g.handled.map Ingress.xid ++ g.missed.map Ingress.xid
  | .endRestartMode => os = g.handled.map Ingress.xid ++ g.missed.map Ingress.xid ++ queue
  | .done => os = g.handled.map Ingress.xid ++ g.missed.map Ingress.xid ++ queue ++ direct

/-- The messages that have come in are in the queue, or have been passed on by the reader, which does so only after
the restart thread is done. -/
structure Stitched (g : Group) (os direct : List UInt32) (s : State) : Prop where
  progress : Progress g os direct s.lastKeyToProcess s.restartMsgQueue s.restart
  coming : s.restartMsgQueue ++ direct ++ s.reader.held ++ s.unread = g.coming.map Ingress.xid
  direct_nil : s.restart ≠ .done → direct = []
  mode : s.restartMode = true ↔ s.restart ≠ .done
  receive : ∀ x, s.reader = .receive x → s.restart = .done

theorem stitched_start (g : Group) (leaderCount : Nat) : Stitched g [] [] (g.start leaderCount) where
  progress := rfl
  coming := rfl
  direct_nil _ := rfl
  mode := ⟨fun _ h => (by cases h), fun _ => rfl⟩
  receive x h := by cases h

section Step

variable {g : Group} {os direct : List UInt32} {s t : State}

/-- A step of the restart thread changes nothing but its own place, until it ends restart mode. -/
theorem Stitched.move (h : Stitched g os direct s) (hnow : s.restart ≠ .done) {pc : RestartPc} {last : UInt32}
    {os' : List UInt32} (hpc : pc ≠ .done)
    (hprogress : Progress g os' direct last s.restartMsgQueue pc) :
    Stitched g os' direct { s with restart := pc, lastKeyToProcess := last } where
  progress := hprogress
  coming := h.coming
  direct_nil _ := h.direct_nil hnow
  mode := ⟨fun _ => hpc, fun _ => h.mode.mpr hnow⟩
  receive x hx := absurd (h.receive x hx) hnow

/-- The front of the queue is the first message that comes. -/
theorem Stitched.head_coming (h : Stitched g os direct s) {first : UInt32}
    (hfirst : s.restartMsgQueue.head? = some first) : (g.coming.map Ingress.xid).head? = some first := by
  obtain ⟨xids, hxids⟩ := List.head?_eq_some_iff.mp hfirst
  rw [← h.coming, hxids]
  rfl

theorem Stitched.restartStep (h : Stitched g os direct s) (hsafe : StepSafe g s .restart)
    (ht : (s.restartStep g).result = some t) : Stitched g (os ++ (s.restartStep g).outs) direct t := by
  have hprogress := h.progress
  have hsafe' : RestartSafe g s s.restart := hsafe
  unfold State.restartStep at ht ⊢
  generalize hpc : s.restart = pc at hprogress hsafe' ht ⊢
  have hmove : ∀ {pc' last os'}, pc ≠ .done → pc' ≠ .done →
      Progress g os' direct last s.restartMsgQueue pc' →
      Stitched g os' direct { s with restart := pc', lastKeyToProcess := last } :=
    fun hnow hpc' hp => h.move (hpc ▸ hnow) hpc' hp
  cases pc with
  | listKeys =>
      cases ht
      rw [show os = [] from hprogress]
      refine hmove (fun hno => by cases hno) (fun hno => by cases hno) ⟨?_, fun x hx => by cases hx⟩
      exact restartXids_eq g hsafe'.1 hsafe'.2
  | own keys =>
      obtain ⟨hall, hlast⟩ := hprogress
      cases keys with
      | nil =>
          cases ht
          show Stitched g (os ++ []) direct _
          rw [List.append_nil] at hall ⊢
          exact hmove (fun hno => by cases hno) (fun hno => by cases hno) ⟨hall, hlast⟩
      | cons xid keys =>
          cases ht
          show Stitched g (os ++ [xid]) direct _
          refine hmove (fun hno => by cases hno) (fun hno => by cases hno) ⟨?_, ?_⟩
          · rw [List.append_assoc]
            exact hall
          · -- the keys are listed in their order
            have hpair := (List.pairwise_append.mp (List.pairwise_append.mp (xids_increasing g)).1).1
            rw [← hall] at hpair
            intro x hx
            rcases List.mem_append.mp hx with hx | hx
            · exact UInt32.le_of_lt ((List.pairwise_append.mp hpair).2.2 x hx xid List.mem_cons_self)
            · rw [List.mem_singleton.mp hx]
              exact UInt32.le_refl xid
  | firstXid =>
      obtain ⟨hall, hlast⟩ := hprogress
      dsimp only at ht ⊢
      split at ht
      case isTrue hlocked =>
        cases ht
        rw [if_pos hlocked]
        show Stitched g (os ++ []) direct s
        rw [List.append_nil]
        exact h
      case isFalse hlocked =>
        cases ht
        rw [if_neg hlocked]
        show Stitched g (os ++ []) direct _
        rw [List.append_nil]
        refine hmove (fun hno => by cases hno) (fun hno => by cases hno) ⟨hall, hlast, ?_⟩
        rw [State.firstXidRcvd]
        cases hhead : s.restartMsgQueue.head? with
        | some first => exact .inr (h.head_coming hhead)
        | none =>
            left
            rcases hsafe' (Bool.not_eq_true _ ▸ hlocked) with hne | hnil
            · exact absurd (List.head?_eq_none_iff.mp hhead) hne
            · exact ⟨hnil, rfl⟩
  | rangeKeys first =>
      obtain ⟨hall, hlast, hfirst⟩ := hprogress
      cases ht
      show Stitched g (os ++ []) direct _
      rw [List.append_nil]
      refine hmove (fun hno => by cases hno) (fun hno => by cases hno) ?_
      have hhandled : ∀ m ∈ g.handled, m.xid ≤ s.lastKeyToProcess := by
        intro m hm
        apply hlast
        rw [hall]
        exact List.mem_map_of_mem hm
      show os ++ dbRangeKeys _ _ _ = _
      rw [dbRangeKeys_eq g hsafe'.1 hhandled hfirst hsafe'.2, hall]
  | leader keys =>
      cases keys with
      | nil =>
          cases ht
          show Stitched g (os ++ []) direct _
          refine hmove (fun hno => by cases hno) (fun hno => by cases hno) ?_
          exact hprogress
      | cons xid keys =>
          cases ht
          show Stitched g (os ++ [xid]) direct _
          refine hmove (fun hno => by cases hno) (fun hno => by cases hno) ?_
          show os ++ [xid] ++ keys = _
          rw [List.append_assoc]
          exact hprogress
  | walkQueue =>
      cases ht
      show Stitched g (os ++ (s.restartMsgQueue ++ [])) direct _
      rw [List.append_nil]
      refine hmove (fun hno => by cases hno) (fun hno => by cases hno) ?_
      rw [show os = _ from hprogress]
      rfl
  | endRestartMode =>
      cases ht
      show Stitched g (os ++ []) direct _
      rw [List.append_nil]
      have hnil : direct = [] := h.direct_nil (by rw [hpc]; exact fun hno => by cases hno)
      refine ⟨?_, h.coming, fun hno => absurd rfl hno, ⟨fun hno => (by cases hno), fun hno => absurd rfl hno⟩,
        fun x hx => rfl⟩
      show os = _ ++ direct
      rw [hnil, List.append_nil]
      exact hprogress
  | done =>
      cases ht
      show Stitched g (os ++ []) direct s
      rw [List.append_nil]
      exact h

theorem Stitched.readerStep (h : Stitched g os direct s) (hsafe : StepSafe g s .reader)
    (ht : s.readerStep.result = some t) : ∃ direct', Stitched g (os ++ s.readerStep.outs) direct' t := by
  have hsafe' : ReaderSafe s s.reader := hsafe
  have hcoming := h.coming
  unfold State.readerStep at ht ⊢
  generalize hpc : s.reader = pc at hcoming hsafe' ht ⊢
  cases pc with
  | idle =>
      dsimp only at ht ⊢
      cases hunread : s.unread with
      | nil =>
          rw [hunread] at ht
          cases ht
          refine ⟨direct, ?_⟩
          show Stitched g (os ++ []) direct s
          rw [List.append_nil]
          exact h
      | cons xid xids =>
          rw [hunread] at ht hcoming
          cases ht
          refine ⟨direct, ?_⟩
          show Stitched g (os ++ []) direct _
          rw [List.append_nil]
          by_cases hmode : s.restartMode = true
          · rw [if_pos hmode]
            refine ⟨h.progress, ?_, h.direct_nil, h.mode, fun x hx => by cases hx⟩
            rw [← hcoming]
            simp [ReaderPc.held]
          · rw [if_neg hmode]
            have hdone : s.restart = .done := not_not.mp fun hno => hmode (h.mode.mpr hno)
            refine ⟨h.progress, ?_, h.direct_nil, h.mode, fun x _ => hdone⟩
            rw [← hcoming]
            simp [ReaderPc.held]
  | push xid =>
      obtain ⟨hnotEnd, hnotDone⟩ := hsafe'
      cases ht
      refine ⟨direct, ?_⟩
      show Stitched g (os ++ []) direct _
      rw [List.append_nil]
      have hnil := h.direct_nil hnotDone
      refine ⟨?_, ?_, h.direct_nil, h.mode, fun x hx => by cases hx⟩
      · -- the queue has not been walked yet
        have hprogress := h.progress
        show Progress g os direct s.lastKeyToProcess (s.restartMsgQueue ++ [xid]) s.restart
        generalize s.restart = pc at hprogress hnotEnd hnotDone
        cases pc with
        | endRestartMode => exact absurd rfl hnotEnd
        | done => exact absurd rfl hnotDone
        | _ => exact hprogress
      · rw [← hcoming, hnil]
        simp [ReaderPc.held]
  | unlock =>
      cases ht
      refine ⟨direct, ?_⟩
      show Stitched g (os ++ []) direct _
      rw [List.append_nil]
      exact ⟨h.progress, hcoming, h.direct_nil, h.mode, fun x hx => by cases hx⟩
  | receive xid =>
      have hdone := h.receive xid hpc
      cases ht
      refine ⟨direct ++ [xid], ?_⟩
      show Stitched g (os ++ [xid]) (direct ++ [xid]) _
      refine ⟨?_, ?_, fun hno => absurd hdone hno, h.mode, fun x hx => by cases hx⟩
      · have hprogress := h.progress
        show Progress g (os ++ [xid]) (direct ++ [xid]) s.lastKeyToProcess s.restartMsgQueue s.restart
        rw [hdone] at hprogress ⊢
        rw [show os = _ from hprogress]
        exact List.append_assoc _ _ _
      · rw [← hcoming]
        simp [ReaderPc.held]

theorem Stitched.step (h : Stitched g os direct s) {e : Event} (hsafe : StepSafe g s e)
    (ht : (s.step g e).result = some t) : ∃ direct', Stitched g (os ++ (s.step g e).outs) direct' t := by
  cases e with
  | restart => exact ⟨direct, h.restartStep hsafe ht⟩
  | reader => exact h.readerStep hsafe ht
  | leader =>
      cases ht
      refine ⟨direct, ?_⟩
      show Stitched g (os ++ []) direct _
      rw [List.append_nil]
      exact ⟨h.progress, h.coming, h.direct_nil, h.mode, h.receive⟩
  | leadElectCompl =>
      refine ⟨direct, ?_⟩
      unfold State.step at ht ⊢
      dsimp only at ht ⊢
      split at ht
      case isTrue hcond =>
        cases ht
        rw [if_pos hcond]
        show Stitched g (os ++ []) direct _
        rw [List.append_nil]
        exact ⟨h.progress, h.coming, h.direct_nil, h.mode, h.receive⟩
      case isFalse hcond =>
        cases ht
        rw [if_neg hcond]
        show Stitched g (os ++ []) direct s
        rw [List.append_nil]
        exact h

/-- What has been passed on is the beginning of the stream. -/
theorem Stitched.passed (h : Stitched g os direct s) : os <+: g.stream.map Ingress.xid := by
  have hstream : g.stream.map Ingress.xid =
      g.handled.map Ingress.xid ++ g.missed.map Ingress.xid ++ g.coming.map Ingress.xid := by
    rw [← List.map_append, ← List.map_append, stream_eq]
  rw [hstream]
  have hprogress := h.progress
  have hcoming := h.coming
  generalize s.restart = pc at hprogress
  cases pc with
  | listKeys =>
      rw [show os = [] from hprogress]
      exact List.nil_prefix
  | own keys =>
      rw [← hprogress.1, List.append_assoc, List.append_assoc]
      exact List.prefix_append _ _
  | firstXid =>
      rw [hprogress.1, List.append_assoc]
      exact List.prefix_append _ _
  | rangeKeys first =>
      rw [hprogress.1, List.append_assoc]
      exact List.prefix_append _ _
  | leader keys =>
      rw [← show os ++ keys = _ from hprogress, List.append_assoc]
      exact List.prefix_append _ _
  | walkQueue =>
      rw [show os = _ from hprogress]
      exact List.prefix_append _ _
  | endRestartMode =>
      rw [show os = _ from hprogress, ← hcoming, List.prefix_append_right_inj, List.append_assoc, List.append_assoc]
      exact List.prefix_append _ _
  | done =>
      rw [show os = _ from hprogress, ← hcoming, List.append_assoc, List.prefix_append_right_inj, List.append_assoc]
      exact List.prefix_append _ _

theorem Stitched.exactlyOnce (h : Stitched g os direct s) : ExactlyOnce g os s := by
  refine ⟨g.increasing.sublist h.passed.sublist, fun hdone hidle => ?_⟩
  have hprogress := h.progress
  have hcoming := h.coming
  rw [hdone] at hprogress
  rw [hidle] at hcoming
  have hos : os = g.handled.map Ingress.xid ++ g.missed.map Ingress.xid ++ s.restartMsgQueue ++ direct := hprogress
  have hall : os ++ s.unread = g.stream.map Ingress.xid := by
    rw [hos, ← stream_eq g, List.map_append, List.map_append, ← hcoming]
    simp [ReaderPc.held]
  have hdelivered : delivered g s = os := by
    have hlen := congrArg List.length hall
    rw [List.length_append, List.length_map] at hlen
    rw [delivered, List.map_take, ← hall, ← hlen, Nat.add_sub_cancel, List.take_left]
  constructor
  · intro x
    rw [hdelivered]
  · intro x hx
    rw [hos]
    exact List.mem_append_left _ (List.mem_append_right _ hx)

end Step

/-- As long as every step is safe, every message is passed on exactly once and in order. -/
theorem exactlyOnce_of_run (g : Group) (leaderCount : Nat) {es : List Event} {t : State}
    (hall : (machine g).AllSteps (StepSafe g) (g.start leaderCount) es)
    (hrun : ((machine g).run (g.start leaderCount) es).result = some t) :
    ExactlyOnce g ((machine g).run (g.start leaderCount) es).outs t := by
  have hstart : ∃ direct, Stitched g [] direct (g.start leaderCount) := ⟨[], stitched_start g leaderCount⟩
  have hstep := (machine g).run_outputs_of_allSteps (P := fun os s => ∃ direct, Stitched g os direct s)
    (Q := fun _ => True) hstart trivial hall fun os s e ⟨direct, hs⟩ hsafe =>
      ⟨trivial, fun t ht => hs.step hsafe ht⟩
  obtain ⟨direct, hs⟩ := hstep.2 t hrun
  exact hs.exactlyOnce

/-- Five messages, all of a kind that is stored: two were handled before, one was missed, and two come. The keys of the
two come in their order, with `cur_xid` between them. -/
def fiveMessages : Group where
  stream := [⟨1, true⟩, ⟨2, true⟩, ⟨3, true⟩, ⟨4, true⟩, ⟨5, true⟩]
  own := 2
  live := 3
  keys := [keyOf 1, currentXid, keyOf 2]
  uninit := 0
  increasing := by decide
  pos := by decide
  own_le := by decide
  live_le := by decide
  listed := dbListKeys_of_perm (x := 1) (by decide) (by decide)

/-- The fourth message comes during the replay and the fifth after the restart. -/
def inTime : List Event :=
  [.restart, .restart, .restart, .restart, .reader, .reader, .reader, .restart, .restart, .restart, .restart, .restart,
    .restart, .reader, .reader]

theorem exactlyOnce_inTime :
    ((machine fiveMessages).run (fiveMessages.start 3) inTime).outs = [1, 2, 3, 4, 5] ∧
    ∃ t, ((machine fiveMessages).run (fiveMessages.start 3) inTime).result = some t ∧ t.restart = .done ∧
      ExactlyOnce fiveMessages ((machine fiveMessages).run (fiveMessages.start 3) inTime).outs t := by
  have hany : (((machine fiveMessages).run (fiveMessages.start 3) inTime).result.any
      fun t => decide (t.restart = .done)) = true := by decide
  obtain ⟨t, hrun, hdone⟩ := exists_of_any hany
  exact ⟨by decide, t, hrun, hdone, exactlyOnce_of_run fiveMessages 3 (by decide) hrun⟩

/-- The reader finds restart mode on for the fifth message, and puts it into the queue after the walk. -/
def afterWalk : List Event :=
  [.restart, .restart, .restart, .restart, .reader, .reader, .reader, .restart, .restart, .restart, .restart, .reader,
    .restart, .restart, .reader, .reader]

/-- The fifth message is never passed on. -/
theorem afterWalk_not_exactlyOnce :
    ((machine fiveMessages).run (fiveMessages.start 3) afterWalk).outs = [1, 2, 3, 4] ∧
    ¬ ∀ (g : Group) (leaderCount : Nat) (es : List Event) (t : State),
      ((machine g).run (g.start leaderCount) es).result = some t →
      ExactlyOnce g ((machine g).run (g.start leaderCount) es).outs t := by
  have houts : ((machine fiveMessages).run (fiveMessages.start 3) afterWalk).outs = [1, 2, 3, 4] := by decide
  refine ⟨houts, fun h => ?_⟩
  have hany : (((machine fiveMessages).run (fiveMessages.start 3) afterWalk).result.any fun t =>
      decide (t.restart = .done ∧ t.reader = .idle ∧ t.restartMsgQueue = [4, 5])) = true := by decide
  obtain ⟨t, hrun, hdone, hidle, hqueue⟩ := exists_of_any hany
  have honce := h fiveMessages 3 afterWalk t hrun
  rw [houts] at honce
  have hleft := (honce.2 hdone hidle).2 5 (by rw [hqueue]; decide)
  revert hleft
  decide

end Harry.Restart
