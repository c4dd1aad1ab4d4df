import Harry.CheckpointRoundTrip

/-! How a sibling that was restarted goes through a stored message again: `process_restarted_msg` reads the header of the
message from the database, makes room for the rest and hands the buffer to `ospf6_db_fill_body` and `ospf6_receive`.
The length in the header is the one of the network, and the room is reckoned with it as it lies in memory. -/

namespace Harry.Checkpoint

open Harry.Sibling

/-- What the database has under a bucket and a key: the message that was stored, as the text of its kind. -/
abbrev Database := UInt32 → UInt32 → Option (Kind × List UInt8)

/-- A `struct rfpbuf` without headroom: how much of its memory is allocated, and how much of it is in use. -/
structure Room where
  allocated : Nat
  size : Nat

/-- `rfpbuf_new`. -/
def Room.new (size : Nat) : Room := ⟨size, 0⟩

/-- `b->size += size`. -/
def Room.grow (b : Room) (size : Nat) : Room := { b with size := b.size + size }

/-- `rfpbuf_prealloc_tailroom` with `rfpbuf_resize__`; the sizes are of 64 bits. -/
def Room.preallocTailroom (b : Room) (size : Nat) : Room :=
  if size > b.allocated - b.size then { b with allocated := (b.size + max size 64) % 2 ^ 64 } else b

/-- `oh->length`, as it lies in memory. -/
def rawLength (mem : Nat → UInt8) : Nat := (mem 2).toNat + 2 ^ 8 * (mem 3).toNat

/-- `ospf6_db_get` with `ospf6_db_fill_header`: the text, if there is one, and the memory at `oh` after its header was
parsed. -/
def ospf6DbGet (db : Database) (xid bucket : UInt32) (mem : Nat → UInt8) (idx : Indices) :
    Option (List Char × (Nat → UInt8) × Indices) :=
  (db bucket xid).map fun m =>
    let text := messageText m.2 m.1
    let parsed := yyparse true text idx
    (text, parsed.stores.foldl Store.apply mem, parsed.indices)

/-- What `process_restarted_msg` comes to. -/
inductive Replay where
  | returned
  | received (allocated : Nat) (oh : Nat → UInt8) (idx : Indices)

/-- `process_restarted_msg`, into memory that has `mem` in it before. Without a text the length of a null pointer's
string is taken. -/
def processRestartedMsg (db : Database) (bid xid : UInt32) (mem : Nat → UInt8) (idx : Indices) : Option Replay := do
  let msg := (Room.new 16).grow 16
  let (text, oh, idx) ← ospf6DbGet db xid bid mem idx
  let msg := msg.preallocTailroom ((rawLength oh + 2 ^ 64 - 16) % 2 ^ 64)
  let parsed := yyparse false text idx
  some (.received msg.allocated (parsed.stores.foldl Store.apply oh) parsed.indices)

/-- A message is replayed in a buffer with room for all of it, and a missing one not at all. -/
def ReplaysSafely (db : Database) (bid xid : UInt32) (mem : Nat → UInt8) (idx : Indices) : Prop :=
  (∀ m, db bid xid = some m → ∃ allocated oh idx', processRestartedMsg db bid xid mem idx =
    some (.received allocated oh idx') ∧ ospf6Length m.2 ≤ allocated) ∧
  (db bid xid = none → processRestartedMsg db bid xid mem idx = some .returned)

/-! ### The length -/

/-- The header has the length that was stored, with its bytes where they were. -/
theorem rawLength_header (m : Kind × List UInt8) (mem : Nat → UInt8) (idx : Indices) :
    rawLength ((yyparse true (messageText m.2 m.1) idx).stores.foldl Store.apply mem) = load m.2 2 2 := by
  have hstores : (yyparse true (messageText m.2 m.1) idx).stores = (items m.2 0 0 headerLayout).map Item.store := by
    rw [yyparse_messageText]
    simp [messageActed, entriesActed_true, acted]
  have hlt : load m.2 2 2 < 2 ^ 16 := load_lt m.2 2 2
  have hsame : reread (load m.2 2 2) = load m.2 2 2 := if_pos (by omega)
  have hbytes : ((items m.2 0 0 headerLayout).map Item.store).flatMap Store.bytes =
      leBytes 1 (reread (load m.2 0 1)) ++ (leBytes 1 (reread (load m.2 1 1)) ++ (leBytes 2 (load m.2 2 2) ++
        ((items m.2 4 4 (headerLayout.drop 3)).map Item.store).flatMap Store.bytes)) := by
    rw [← hsame]
    rfl
  have hlen := length_flatMap_items m.2 0 0 headerLayout
  have hat (i : Nat) (hi : i < 16) :
      ((items m.2 0 0 headerLayout).map Item.store).foldl Store.apply mem i =
        (((items m.2 0 0 headerLayout).map Item.store).flatMap Store.bytes).getD i 0 := by
    have hsize : layoutSize headerLayout = 16 := rfl
    rw [foldl_apply (chained_items m.2 0 0 headerLayout), hlen, hsize, if_pos (by omega), Nat.sub_zero]
  rw [hstores, rawLength, hat 2 (by decide), hat 3 (by decide), hbytes]
  simp only [leBytes, List.cons_append, List.nil_append, List.getD_cons_succ, List.getD_cons_zero, UInt8.toNat_ofNat']
  omega

/-- The size of the buffer that is made for a length, as it is read. -/
def roomFor (s : Nat) : Nat := if s < 16 then s else if s = 16 then 16 else max s 80

theorem allocated_preallocTailroom {s : Nat} (hs : s < 2 ^ 16) :
    (((Room.new 16).grow 16).preallocTailroom ((s + 2 ^ 64 - 16) % 2 ^ 64)).allocated = roomFor s := by
  have hroom (n : Nat) : (((Room.new 16).grow 16).preallocTailroom n).allocated =
      if n > 0 then (16 + max n 64) % 2 ^ 64 else 16 := by
    unfold Room.preallocTailroom
    split
    case isTrue hn => exact (if_pos hn).symm
    case isFalse hn => exact (if_neg hn).symm
  rw [hroom, roomFor]
  rcases Nat.lt_trichotomy s 16 with hlt | rfl | hgt
  · -- the difference wraps around, and the sum wraps around again
    have hsub : (s + 2 ^ 64 - 16) % 2 ^ 64 = s + 2 ^ 64 - 16 := Nat.mod_eq_of_lt (by omega)
    rw [hsub, if_pos (by omega), if_pos hlt]
    omega
  · rfl
  · have hsub : (s + 2 ^ 64 - 16) % 2 ^ 64 = s - 16 := by omega
    rw [hsub, if_pos (by omega), if_neg (by omega), if_neg (by omega)]
    omega

/-- There is room for a length if and only if its high byte is not above its low byte. -/
theorem room_iff (high low : UInt8) {s : Nat} (hs : s = high.toNat + 2 ^ 8 * low.toNat) :
    high.toNat * 2 ^ 8 + low.toNat ≤ roomFor s ↔ high ≤ low := by
  have hhigh := high.toNat_lt
  have hlow := low.toNat_lt
  rw [UInt8.le_iff_toNat_le, roomFor]
  split
  · omega
  · split <;> omega

section Replays

variable {db : Database} {bid xid : UInt32} (mem : Nat → UInt8) (idx : Indices)

theorem processRestartedMsg_stored {m : Kind × List UInt8} (hm : db bid xid = some m) :
    ∃ oh idx', processRestartedMsg db bid xid mem idx = some (.received (roomFor (load m.2 2 2)) oh idx') := by
  rw [processRestartedMsg, ospf6DbGet, hm, Option.map_some, Option.bind_eq_bind, Option.bind_some]
  simp only [rawLength_header, allocated_preallocTailroom (load_lt m.2 2 2)]
  exact ⟨_, _, rfl⟩

/-- Of a key that is not in the database the text of a null pointer is parsed. -/
theorem processRestartedMsg_missing (hm : db bid xid = none) : processRestartedMsg db bid xid mem idx = none := by
  rw [processRestartedMsg, ospf6DbGet, hm]
  rfl

theorem room_of_stored (frame : List UInt8) :
    ospf6Length frame ≤ roomFor (load frame 2 2) ↔ u8At frame 2 ≤ u8At frame 3 := by
  have hlength : ospf6Length frame = (u8At frame 2).toNat * 2 ^ 8 + (u8At frame 3).toNat := by
    have hhigh := (u8At frame 2).toNat_lt
    have hlow := (u8At frame 3).toNat_lt
    have hnext : u8At frame (2 + 1) = u8At frame 3 := rfl
    rw [ospf6Length, u16At, UInt16.toNat_ofNat', hnext]
    omega
  rw [hlength]
  apply room_iff
  simp only [load, Nat.reduceAdd]
  omega

end Replays

/-- A message is replayed safely if and only if it is in the database and the high byte of its length is not above the
low byte. -/
theorem replaysSafely_iff (db : Database) (bid xid : UInt32) (mem : Nat → UInt8) (idx : Indices) :
    ReplaysSafely db bid xid mem idx ↔ ∃ m, db bid xid = some m ∧ u8At m.2 2 ≤ u8At m.2 3 := by
  constructor
  · rintro ⟨hstored, hmissing⟩
    cases hdb : db bid xid with
    | none =>
        rw [processRestartedMsg_missing mem idx hdb] at hmissing
        cases hmissing hdb
    | some m =>
        obtain ⟨allocated, oh, idx', hreplay, hle⟩ := hstored m hdb
        obtain ⟨oh', idx'', hreplay'⟩ := processRestartedMsg_stored mem idx hdb
        cases hreplay'.symm.trans hreplay
        exact ⟨m, rfl, (room_of_stored m.2).mp hle⟩
  · rintro ⟨m, hm, hbytes⟩
    obtain ⟨oh, idx', hreplay⟩ := processRestartedMsg_stored mem idx hm
    refine ⟨fun m' hm' => ?_, fun hnone => ?_⟩
    · cases hm.symm.trans hm'
      exact ⟨_, oh, idx', hreplay, (room_of_stored m.2).mpr hbytes⟩
    · cases hm.symm.trans hnone

/-- A Hello that has heard of 55 neighbors: 256 bytes. -/
def helloOf55 : List UInt8 :=
  [3, 1, 1, 0, 1, 1, 1, 1, 0, 0, 0, 0, 0, 0, 0, 0] ++
    [0, 0, 0, 5, 1, 0, 0, 19, 0, 10, 0, 40, 0, 0, 0, 0, 0, 0, 0, 0] ++
    (List.range 55).flatMap fun i => [10, 0, 0, UInt8.ofNat (i + 1)]

/-- A database with that message. -/
def dbOf55 : Database := fun _ _ => some (.hello, helloOf55)

/-- Of a key that is not in the database the sibling does not return, and for 256 bytes it makes a buffer of one. -/
theorem not_replaysSafely : ¬ ReplaysSafely (fun _ _ => none) 1 7 (fun _ => 0) .initial ∧
    ¬ ReplaysSafely dbOf55 1 7 (fun _ => 0) .initial := by
  constructor
  · rintro ⟨-, hmissing⟩
    cases (processRestartedMsg_missing _ _ rfl).symm.trans (hmissing rfl)
  · rintro ⟨hstored, -⟩
    obtain ⟨allocated, oh, idx', hreplay, hle⟩ := hstored _ rfl
    have hm : dbOf55 1 7 = some (.hello, helloOf55) := rfl
    obtain ⟨oh', idx'', hreplay'⟩ := processRestartedMsg_stored (fun _ => 0) .initial hm
    cases hreplay'.symm.trans hreplay
    exact absurd hle (by decide)

end Harry.Checkpoint
