import Harry.RfpStream

/-! `ctrl_client_read`, by which a sibling takes messages of the controller off its connection. The number of bytes
that are already there is a local variable of the function, so a call that finds an unfinished message in `ibuf`
appends `sizeof(struct rfp_header)` bytes of whatever the memory holds and begins with a header again. Messages
arrive as they were sent exactly if no read returns less than it has asked for. -/

namespace Harry.Ctrl

open Harry.Base Harry.Rfp

/-- A connection and what has been read from it. A read that is decided by `some k` returns up to `k + 1` bytes, one
decided by `none` returns 0 or -1. -/
structure CtrlClient where
  sock : Stream (Option Nat)
  ibuf : Option Buffer
  /-- What is in the memory that `rfpbuf_put_uninit` adds to the buffer before a read, by the number of that read. -/
  uninit : Nat → Fin 8 → UInt8

/-- What a call does besides keeping what it has read. -/
inductive Outcome where
  /-- The switch on the type of the message, with `ctrl_client->ibuf`. -/
  | dispatch (data : List UInt8)
  /-- `ctrl_client_failed`, which closes the connection. -/
  | failed
  deriving DecidableEq

/-- `rfpbuf_put_uninit`. -/
def rfpbufPutUninit (b : Buffer) (bytes : List UInt8) : Option Buffer := (b.preallocTailroom bytes.length).write bytes

/-- What `rfpbuf_read_try` returns. -/
inductive ReadTry where
  | failure
  | success (nbyte : Nat) (b : Buffer) (sock : Stream (Option Nat))

/-- `rfpbuf_read_try`, on a socket that blocks: without any byte to come the read does not return. It writes at the
tail without a look at the tailroom. -/
def rfpbufReadTry (b : Buffer) (sock : Stream (Option Nat)) (size : Nat) : Option ReadTry :=
  match sock.reply with
  | none => some .failure
  | some k =>
      let got := sock.bytes.take (min (k + 1) size)
      if got = [] then none else (b.write got).map fun b => .success got.length b (sock.advance got.length)

namespace CtrlClient

variable (c : CtrlClient)

/-- The buffer at the begin of a call. -/
def ibufToRead : Option Buffer :=
  match c.ibuf with
  | none => some (rfpbufNew 8)
  | some b => rfpbufPutUninit b (List.ofFn (c.uninit c.sock.reads))

/-- `ctrl_client_failed`: no byte of this connection is read after it. -/
def ctrlClientFailed : Exec Outcome CtrlClient := do
  Exec.emit .failed
  pure { c with sock := { c.sock with bytes := [] }, ibuf := none }

/-- A read of `size` bytes in `ctrl_client_read`: it goes on with all of them, or it keeps what has come and tries
again later. -/
def readTry (ibuf : Buffer) (sock : Stream (Option Nat)) (size : Nat)
    (next : Buffer → Stream (Option Nat) → Exec Outcome CtrlClient) : Exec Outcome CtrlClient := do
  match ← Exec.deref (rfpbufReadTry ibuf sock size) with
  | .failure => c.ctrlClientFailed
  | .success nbyte ibuf sock =>
      if nbyte ≠ size then pure { c with sock := sock, ibuf := some ibuf } else next ibuf sock

/-- The switch on the type of the message, after which the buffer is deleted. -/
def dispatchIbuf (ibuf : Buffer) (sock : Stream (Option Nat)) : Exec Outcome CtrlClient := do
  Exec.emit (.dispatch ibuf.data)
  pure { c with sock := sock, ibuf := none }

/-- `ctrl_client_read` from where `already` is 8. -/
def readBody (ibuf : Buffer) (sock : Stream (Option Nat)) : Exec Outcome CtrlClient := do
  let length := headerLength ibuf.data
  -- `length - already` is a `size_t`: below 8 the reallocated memory is smaller than the data in it
  Exec.require (8 ≤ length)
  let ibuf := ibuf.preallocTailroom (length - 8)
  if 8 < length then c.readTry ibuf sock (length - 8) c.dispatchIbuf else c.dispatchIbuf ibuf sock

/-- `ctrl_client_read`. -/
def ctrlClientRead : Exec Outcome CtrlClient := do
  let ibuf ← Exec.deref c.ibufToRead
  c.readTry ibuf c.sock 8 c.readBody

end CtrlClient

/-- The reader as a machine: an event is one call. -/
def reader : Machine CtrlClient Unit Outcome := ⟨fun c _ => c.ctrlClientRead⟩

/-- A connection on which `msgs` will arrive, cut by the reads as `cut` says. -/
def connected (msgs : List (List UInt8)) (cut : Nat → Nat) (uninit : Nat → Fin 8 → UInt8) : CtrlClient :=
  ⟨⟨msgs.flatten, fun i => some (cut i), 0⟩, none, uninit⟩

/-- What the first `n` calls do. -/
def outcomes (c : CtrlClient) (n : Nat) : List Outcome := (reader.run c (List.replicate n ())).outs

/-- The calls dispatch the messages, and nothing after them. -/
def Dispatches (c : CtrlClient) (msgs : List (List UInt8)) : Prop :=
  ∃ N, ∀ n ≥ N, outcomes c n = msgs.map .dispatch

/-- How many bytes the reads ask for that take the messages off the stream: the header of each, then what is left
of it. -/
def requests (msgs : List (List UInt8)) : List Nat :=
  msgs.flatMap fun m => if 8 < m.length then [8, m.length - 8] else [8]

/-- The `k`-th read and those after it return all that they ask for. -/
def Whole (cut : Nat → Nat) (k : Nat) (msgs : List (List UInt8)) : Prop :=
  ∀ j r, (requests msgs)[j]? = some r → r ≤ cut (k + j) + 1

theorem rfpbufReadTry_success {b b' : Buffer} {sock sock' : Stream (Option Nat)} {size n : Nat}
    (h : rfpbufReadTry b sock size = some (.success n b' sock')) :
    0 < n ∧ n ≤ size ∧ b'.size = b.size + n ∧ ∃ x, b'.data = b.data ++ x := by
  unfold rfpbufReadTry at h
  cases hr : sock.reply with
  | none => simp [hr] at h
  | some k =>
      simp only [hr] at h
      split at h
      · cases h
      · obtain ⟨b'', hb, heq⟩ := Option.map_eq_some_iff.mp h
        cases heq
        have hdata := Buffer.data_of_write hb
        refine ⟨List.length_pos_iff.mpr ‹_›, ?_, ?_, _, hdata⟩
        · rw [List.length_take]
          omega
        · rw [Buffer.size, hdata, List.length_append]
          rfl

/-- A read with enough to come and enough room. -/
theorem rfpbufReadTry_eq {b : Buffer} {sock : Stream (Option Nat)} {size k : Nat} (hr : sock.reply = some k)
    (hsize : 0 < size) (hbytes : size ≤ sock.bytes.length) (hroom : size ≤ b.tailroom) :
    ∃ b', rfpbufReadTry b sock size = some (.success (min (k + 1) size) b' (sock.advance (min (k + 1) size))) ∧
      b'.data = b.data ++ sock.bytes.take (min (k + 1) size) := by
  have hlen : (sock.bytes.take (min (k + 1) size)).length = min (k + 1) size := by
    rw [List.length_take]
    omega
  have hne : sock.bytes.take (min (k + 1) size) ≠ [] := by
    rw [← List.length_pos_iff, hlen]
    omega
  obtain ⟨b', hwrite, hdata⟩ := Buffer.write_eq_some (b := b) (sock.bytes.take (min (k + 1) size)) (by omega)
  refine ⟨b', ?_, hdata⟩
  simp only [rfpbufReadTry, hr, if_neg hne, hwrite, hlen, Option.map_some]

section Read

variable {c : CtrlClient} {ibuf : Buffer} {sock : Stream (Option Nat)} {size : Nat}
  {next : Buffer → Stream (Option Nat) → Exec Outcome CtrlClient}

/-- What a read can come to: it does not return or is undefined, it fails, it keeps some bytes, or it goes on. -/
theorem readTry_cases (c : CtrlClient) (ibuf : Buffer) (sock : Stream (Option Nat)) (size : Nat)
    (next : Buffer → Stream (Option Nat) → Exec Outcome CtrlClient) :
    c.readTry ibuf sock size next = ⟨[], none⟩ ∨ c.readTry ibuf sock size next = c.ctrlClientFailed ∨
    (∃ b' sock', ibuf.size < b'.size ∧
      c.readTry ibuf sock size next = pure { c with sock := sock', ibuf := some b' }) ∨
    ∃ b' sock', b'.size = ibuf.size + size ∧ (∃ x, b'.data = ibuf.data ++ x) ∧
      c.readTry ibuf sock size next = next b' sock' := by
  unfold CtrlClient.readTry
  cases h : rfpbufReadTry ibuf sock size with
  | none => exact .inl (Exec.bind_of_none _ rfl)
  | some r =>
      rw [Exec.deref_some_bind]
      cases r with
      | failure => exact .inr (.inl rfl)
      | success n b' sock' =>
          obtain ⟨hpos, -, hsize, hdata⟩ := rfpbufReadTry_success h
          by_cases hn : n ≠ size
          · exact .inr (.inr (.inl ⟨b', sock', by omega, if_pos hn⟩))
          · exact .inr (.inr (.inr ⟨b', sock', by omega, hdata, if_neg hn⟩))

theorem readTry_whole (c : CtrlClient) (next : Buffer → Stream (Option Nat) → Exec Outcome CtrlClient) {k : Nat}
    (hr : sock.reply = some k) (hsize : 0 < size) (hbytes : size ≤ sock.bytes.length)
    (hroom : size ≤ ibuf.tailroom) (hwhole : size ≤ k + 1) :
    ∃ b', c.readTry ibuf sock size next = next b' (sock.advance size) ∧
      b'.data = ibuf.data ++ sock.bytes.take size := by
  obtain ⟨b', hread, hdata⟩ := rfpbufReadTry_eq hr hsize hbytes hroom
  rw [Nat.min_eq_right hwhole] at hread hdata
  refine ⟨b', ?_, hdata⟩
  rw [CtrlClient.readTry, hread, Exec.deref_some_bind]
  exact if_neg fun h => h rfl

theorem readTry_short (c : CtrlClient) (next : Buffer → Stream (Option Nat) → Exec Outcome CtrlClient) {k : Nat}
    (hr : sock.reply = some k) (hsize : 0 < size) (hbytes : size ≤ sock.bytes.length)
    (hroom : size ≤ ibuf.tailroom) (hshort : ¬ size ≤ k + 1) :
    ∃ b' sock', ibuf.size < b'.size ∧
      c.readTry ibuf sock size next = pure { c with sock := sock', ibuf := some b' } := by
  obtain ⟨b', hread, hdata⟩ := rfpbufReadTry_eq hr hsize hbytes hroom
  have hmin : min (k + 1) size = k + 1 := Nat.min_eq_left (by omega)
  obtain ⟨-, -, hgrows, -⟩ := rfpbufReadTry_success hread
  refine ⟨b', sock.advance (min (k + 1) size), by omega, ?_⟩
  rw [CtrlClient.readTry, hread, Exec.deref_some_bind]
  exact if_pos (by omega)

end Read

/-- A call that dispatches nothing that was sent, and does not get out of the middle of a message unless it
dispatches something. -/
structure Astray (x : Exec Outcome CtrlClient) : Prop where
  outs : x.outs = [] ∨ ∃ o, x.outs = [o] ∧ ∀ m, framing.IsFrame m → o ≠ .dispatch m
  kept : x.outs = [] → ∀ c', x.result = some c' → ∃ b, c'.ibuf = some b

theorem Astray.readTry {c : CtrlClient} {ibuf : Buffer} {sock : Stream (Option Nat)} {size : Nat}
    {next : Buffer → Stream (Option Nat) → Exec Outcome CtrlClient}
    (h : ∀ b' sock', b'.size = ibuf.size + size → (∃ x, b'.data = ibuf.data ++ x) → Astray (next b' sock')) :
    Astray (c.readTry ibuf sock size next) := by
  rcases readTry_cases c ibuf sock size next with hx | hx | ⟨b', sock', -, hx⟩ | ⟨b', sock', hsize, hdata, hx⟩
  · rw [hx]
    exact ⟨.inl rfl, fun _ _ hr => by cases hr⟩
  · rw [hx]
    exact ⟨.inr ⟨.failed, rfl, fun _ _ h => by cases h⟩, fun h => by cases h⟩
  · rw [hx]
    refine ⟨.inl rfl, fun _ c' hr => ?_⟩
    cases hr
    exact ⟨b', rfl⟩
  · rw [hx]
    exact h b' sock' hsize hdata

theorem readBody_of_le {c : CtrlClient} {ibuf : Buffer} {sock : Stream (Option Nat)} (h : 8 ≤ headerLength ibuf.data) :
    c.readBody ibuf sock = if 8 < headerLength ibuf.data then
      c.readTry (ibuf.preallocTailroom (headerLength ibuf.data - 8)) sock (headerLength ibuf.data - 8) c.dispatchIbuf
    else c.dispatchIbuf (ibuf.preallocTailroom (headerLength ibuf.data - 8)) sock := by
  rw [CtrlClient.readBody, Exec.bind_of_some _ (if_pos h)]
  rfl

theorem Astray.dispatchIbuf {c : CtrlClient} {ibuf : Buffer} {sock : Stream (Option Nat)}
    (h : headerLength ibuf.data < ibuf.size) : Astray (c.dispatchIbuf ibuf sock) := by
  refine ⟨.inr ⟨_, rfl, ?_⟩, fun h => by cases h⟩
  intro m hm heq
  cases heq
  exact Nat.ne_of_lt h hm.length_eq

/-- More than a header in the buffer before the body is read. -/
theorem Astray.readBody {c : CtrlClient} {ibuf : Buffer} {sock : Stream (Option Nat)} (h : 8 < ibuf.size) :
    Astray (c.readBody ibuf sock) := by
  by_cases hlen : 8 ≤ headerLength ibuf.data
  · rw [readBody_of_le hlen]
    by_cases hmore : 8 < headerLength ibuf.data
    · rw [if_pos hmore]
      apply Astray.readTry
      rintro b' sock' hsize ⟨x, hdata⟩
      apply Astray.dispatchIbuf
      rw [hdata, Buffer.data_preallocTailroom, headerLength_append x (Nat.le_of_lt h)]
      rw [Buffer.size_preallocTailroom] at hsize
      omega
    · rw [if_neg hmore]
      apply Astray.dispatchIbuf
      rw [Buffer.data_preallocTailroom, Buffer.size_preallocTailroom]
      exact Nat.lt_of_le_of_lt (Nat.le_of_not_lt hmore) h
  · rw [CtrlClient.readBody, Exec.bind_of_none _ (if_neg hlen)]
    exact ⟨.inl rfl, fun _ _ hr => by cases hr⟩

/-- A call that finds an unfinished message: whatever it dispatches is longer than it says. -/
theorem Astray.ctrlClientRead {c : CtrlClient} {b : Buffer} (hb : c.ibuf = some b) : Astray c.ctrlClientRead := by
  unfold CtrlClient.ctrlClientRead
  cases hi : c.ibufToRead with
  | none =>
      rw [Exec.bind_of_none _ rfl]
      exact ⟨.inl rfl, fun _ _ hr => by cases hr⟩
  | some ibuf =>
      rw [Exec.deref_some_bind]
      have hsize : 8 ≤ ibuf.size := by
        simp only [CtrlClient.ibufToRead, hb, rfpbufPutUninit] at hi
        rw [Buffer.size, Buffer.data_of_write hi, List.length_append, List.length_ofFn]
        exact Nat.le_add_left _ _
      apply Astray.readTry
      rintro b' sock' hsize' -
      exact Astray.readBody (by omega)

theorem outcomes_succ_of_none {c : CtrlClient} (h : c.ctrlClientRead.result = none) (n : Nat) :
    outcomes c (n + 1) = c.ctrlClientRead.outs := by
  have hstep : (reader.step c ()).result = none := h
  rw [outcomes, List.replicate_succ, Machine.run_cons, Exec.bind_of_none _ hstep]
  rfl

theorem outcomes_succ_of_some {c c' : CtrlClient} (h : c.ctrlClientRead.result = some c') (n : Nat) :
    outcomes c (n + 1) = c.ctrlClientRead.outs ++ outcomes c' n := by
  have hstep : (reader.step c ()).result = some c' := h
  rw [outcomes, List.replicate_succ, Machine.run_cons, Exec.bind_of_some _ hstep]
  rfl

/-- The calls after a short read. -/
theorem outcomes_kept {c : CtrlClient} {b : Buffer} (hb : c.ibuf = some b) (n : Nat) :
    outcomes c n = [] ∨ ∃ o os, outcomes c n = o :: os ∧ ∀ m, framing.IsFrame m → o ≠ .dispatch m := by
  induction n generalizing c b with
  | zero => exact .inl rfl
  | succ n ih =>
      have h := Astray.ctrlClientRead hb
      cases hr : c.ctrlClientRead.result with
      | none =>
          rw [outcomes_succ_of_none hr]
          rcases h.outs with ho | ⟨o, ho, hne⟩
          · exact .inl ho
          · exact .inr ⟨o, [], ho, hne⟩
      | some c' =>
          rw [outcomes_succ_of_some hr]
          rcases h.outs with ho | ⟨o, ho, hne⟩
          · obtain ⟨b', hb'⟩ := h.kept ho c' hr
            rw [ho, List.nil_append]
            exact ih hb'
          · exact .inr ⟨o, outcomes c' n, by rw [ho]; rfl, hne⟩

/-! ### Calls at the begin of a message -/

section Fresh

variable {cut : Nat → Nat} {uninit : Nat → Fin 8 → UInt8} {m x : List UInt8} {k : Nat}

/-- A client at the begin of a message, with `k` reads made before. -/
def fresh (bytes : List UInt8) (cut : Nat → Nat) (k : Nat) (uninit : Nat → Fin 8 → UInt8) : CtrlClient :=
  ⟨⟨bytes, fun i => some (cut i), k⟩, none, uninit⟩

theorem ctrlClientRead_fresh {bytes : List UInt8} : (fresh bytes cut k uninit).ctrlClientRead =
    (fresh bytes cut k uninit).readTry (rfpbufNew 8) ⟨bytes, fun i => some (cut i), k⟩ 8
      (fresh bytes cut k uninit).readBody :=
  Exec.deref_some_bind _ _

theorem dispatchIbuf_fresh {bytes bytes' : List UInt8} {k' : Nat} {b : Buffer} :
    (fresh bytes cut k uninit).dispatchIbuf b ⟨bytes', fun i => some (cut i), k'⟩ =
      ⟨[.dispatch b.data], some (fresh bytes' cut k' uninit)⟩ := rfl

theorem headerLength_take (hm : framing.IsFrame m) : headerLength (m.take 8) = m.length := by
  have hlen : 8 ≤ (m.take 8).length := by
    rw [List.length_take]
    exact Nat.le_min.mpr ⟨Nat.le_refl 8, hm.header_le⟩
  calc headerLength (m.take 8) = headerLength (m.take 8 ++ m.drop 8) := (headerLength_append _ hlen).symm
    _ = m.length := by
        rw [List.take_append_drop]
        exact hm.length_eq

/-- The header of a message comes at once. -/
theorem fresh_header (x : List UInt8) (uninit : Nat → Fin 8 → UInt8) (hm : framing.IsFrame m) (hheader : 8 ≤ cut k + 1) :
    ∃ b, b.data = m.take 8 ∧ (fresh (m ++ x) cut k uninit).ctrlClientRead =
      (fresh (m ++ x) cut k uninit).readBody b ⟨(m ++ x).drop 8, fun i => some (cut i), k + 1⟩ := by
  have hlen : 8 ≤ m.length := hm.header_le
  have hbytes : 8 ≤ (m ++ x).length := by
    rw [List.length_append]
    omega
  obtain ⟨b, hread, hdata⟩ := readTry_whole (fresh (m ++ x) cut k uninit) (fresh (m ++ x) cut k uninit).readBody
    (show (⟨m ++ x, fun i => some (cut i), k⟩ : Stream (Option Nat)).reply = some (cut k) from rfl) (by decide) hbytes
    (show 8 ≤ (rfpbufNew 8).tailroom from Nat.le_refl 8) hheader
  refine ⟨b, ?_, ?_⟩
  · rw [hdata, List.take_append_of_le_length hlen]
    rfl
  · rw [ctrlClientRead_fresh, hread]
    rfl

/-- What is read after the header. -/
theorem fresh_body {sock : Stream (Option Nat)} {b : Buffer} (hb : b.data = m.take 8)
    (hsock : sock = ⟨(m ++ x).drop 8, fun i => some (cut i), k + 1⟩) (hmore : 8 < m.length) :
    sock.reply = some (cut (k + 1)) ∧ m.length - 8 ≤ sock.bytes.length ∧
      m.length - 8 ≤ (b.preallocTailroom (m.length - 8)).tailroom ∧ b.data ++ sock.bytes.take (m.length - 8) = m := by
  subst hsock
  refine ⟨rfl, ?_, Buffer.tailroom_preallocTailroom _ _, ?_⟩
  · simp only [List.length_drop, List.length_append]
    omega
  · rw [hb, List.drop_append_of_le_length (Nat.le_of_lt hmore), ← List.length_drop, List.take_left,
      List.take_append_drop]

/-- A message that is read whole. -/
theorem fresh_whole (x : List UInt8) (uninit : Nat → Fin 8 → UInt8) (hm : framing.IsFrame m) (hheader : 8 ≤ cut k + 1)
    (hbody : 8 < m.length → m.length - 8 ≤ cut (k + 1) + 1) :
    (fresh (m ++ x) cut k uninit).ctrlClientRead =
      ⟨[.dispatch m], some (fresh x cut (k + (requests [m]).length) uninit)⟩ := by
  have hlen : 8 ≤ m.length := hm.header_le
  obtain ⟨b, hb, hread⟩ := fresh_header x uninit hm hheader
  have hlength : headerLength b.data = m.length := by
    rw [hb, headerLength_take hm]
  rw [hread, readBody_of_le (hlength ▸ hlen), hlength]
  by_cases hmore : 8 < m.length
  · obtain ⟨hreply, hbytes, hroom, hdata⟩ := fresh_body hb rfl hmore
    obtain ⟨b', hread', hdata'⟩ := readTry_whole (fresh (m ++ x) cut k uninit)
      (fresh (m ++ x) cut k uninit).dispatchIbuf hreply (by omega) hbytes hroom (hbody hmore)
    have hrest : ((m ++ x).drop 8).drop (m.length - 8) = x := by
      rw [List.drop_drop, Nat.add_sub_cancel' hlen, List.drop_left]
    have hcount : (requests [m]).length = 2 := by
      simp only [requests, List.flatMap_singleton, if_pos hmore]
      rfl
    rw [if_pos hmore, hread', Stream.advance, hrest, dispatchIbuf_fresh, hdata', Buffer.data_preallocTailroom, hdata,
      hcount]
  · have h8 : m.length = 8 := by omega
    have hrest : (m ++ x).drop 8 = x := by rw [← h8, List.drop_left]
    have hcount : (requests [m]).length = 1 := by
      simp only [requests, List.flatMap_singleton, if_neg hmore]
      rfl
    rw [if_neg hmore, hrest, dispatchIbuf_fresh, Buffer.data_preallocTailroom, hb, hcount, ← h8, List.take_length]

/-- A read that gets less than it asks for leaves the client in the middle of a message. -/
theorem fresh_short (x : List UInt8) (uninit : Nat → Fin 8 → UInt8) (hm : framing.IsFrame m)
    (hshort : ¬ (8 ≤ cut k + 1 ∧ (8 < m.length → m.length - 8 ≤ cut (k + 1) + 1))) :
    ∃ c' b', c'.ibuf = some b' ∧ (fresh (m ++ x) cut k uninit).ctrlClientRead = ⟨[], some c'⟩ := by
  by_cases hheader : 8 ≤ cut k + 1
  · obtain ⟨hmore, hbody⟩ : 8 < m.length ∧ ¬ m.length - 8 ≤ cut (k + 1) + 1 := by
      by_contra hno
      exact hshort ⟨hheader, fun h => by_contra fun hb => hno ⟨h, hb⟩⟩
    obtain ⟨b, hb, hread⟩ := fresh_header x uninit hm hheader
    have hlength : headerLength b.data = m.length := by
      rw [hb, headerLength_take hm]
    obtain ⟨hreply, hbytes, hroom, hdata⟩ := fresh_body hb rfl hmore
    obtain ⟨b', sock', -, hread'⟩ := readTry_short (fresh (m ++ x) cut k uninit)
      (fresh (m ++ x) cut k uninit).dispatchIbuf hreply (by omega) hbytes hroom hbody
    rw [hread, readBody_of_le (hlength ▸ Nat.le_of_lt hmore), hlength, if_pos hmore, hread']
    exact ⟨_, b', rfl, rfl⟩
  · have hbytes : 8 ≤ (m ++ x).length := by
      rw [List.length_append]
      exact Nat.le_trans hm.header_le (Nat.le_add_right _ _)
    obtain ⟨b', sock', -, hread⟩ := readTry_short (fresh (m ++ x) cut k uninit)
      (fresh (m ++ x) cut k uninit).readBody
      (show (⟨m ++ x, fun i => some (cut i), k⟩ : Stream (Option Nat)).reply = some (cut k) from rfl) (by decide) hbytes
      (show 8 ≤ (rfpbufNew 8).tailroom from Nat.le_refl 8) hheader
    rw [ctrlClientRead_fresh, hread]
    exact ⟨_, b', rfl, rfl⟩

/-- Nothing is left to read. -/
theorem fresh_nil : (fresh [] cut k uninit).ctrlClientRead = ⟨[], none⟩ := by
  have hread : rfpbufReadTry (rfpbufNew 8) ⟨[], fun i => some (cut i), k⟩ 8 = none := by
    simp [rfpbufReadTry, Stream.reply]
  rw [ctrlClientRead_fresh, CtrlClient.readTry, hread]
  rfl

theorem whole_cons {msgs : List (List UInt8)} : Whole cut k (m :: msgs) ↔
    (8 ≤ cut k + 1 ∧ (8 < m.length → m.length - 8 ≤ cut (k + 1) + 1)) ∧
      Whole cut (k + (requests [m]).length) msgs := by
  have hone : requests [m] = if 8 < m.length then [8, m.length - 8] else [8] := List.flatMap_singleton _ _
  have hcons : requests (m :: msgs) = requests [m] ++ requests msgs := by
    rw [hone]
    rfl
  unfold Whole
  rw [hcons]
  constructor
  · intro h
    refine ⟨⟨h 0 8 ?_, fun hmore => h 1 (m.length - 8) ?_⟩, fun j r hr => ?_⟩
    · rw [hone]
      split <;> rfl
    · rw [hone, if_pos hmore]
      rfl
    · rw [Nat.add_assoc]
      apply h ((requests [m]).length + j) r
      rw [List.getElem?_append_right (Nat.le_add_right _ _), Nat.add_sub_cancel_left]
      exact hr
  · rintro ⟨⟨h0, h1⟩, hrest⟩ j r hr
    by_cases hj : j < (requests [m]).length
    · rw [List.getElem?_append_left hj, hone] at hr
      by_cases hmore : 8 < m.length
      · rw [if_pos hmore] at hr
        match j, hr with
        | 0, hr => cases hr; exact h0
        | 1, hr => cases hr; exact h1 hmore
      · rw [if_neg hmore] at hr
        match j, hr with
        | 0, hr => cases hr; exact h0
    · obtain ⟨d, rfl⟩ := Nat.exists_eq_add_of_le (Nat.le_of_not_lt hj)
      rw [List.getElem?_append_right (Nat.le_add_right _ _), Nat.add_sub_cancel_left] at hr
      rw [← Nat.add_assoc]
      exact hrest d r hr

/-- As long as the reads are whole, the messages are dispatched one by one. -/
theorem outcomes_fresh {msgs : List (List UInt8)} (hms : ∀ m ∈ msgs, framing.IsFrame m) (hwhole : Whole cut k msgs)
    {n : Nat} (hn : msgs.length ≤ n) : outcomes (fresh msgs.flatten cut k uninit) n = msgs.map .dispatch := by
  induction msgs generalizing k n with
  | nil =>
      cases n with
      | zero => rfl
      | succ n =>
          have hnil : (fresh [] cut k uninit).ctrlClientRead = ⟨[], none⟩ := fresh_nil
          rw [List.flatten_nil, outcomes_succ_of_none (by rw [hnil]), hnil]
          rfl
  | cons m msgs ih =>
      obtain ⟨⟨hheader, hbody⟩, hrest⟩ := whole_cons.mp hwhole
      obtain ⟨n, rfl⟩ := Nat.exists_eq_add_of_le' (Nat.le_trans (Nat.le_add_left 1 msgs.length) hn)
      have hcall := fresh_whole msgs.flatten uninit (hms m List.mem_cons_self) hheader hbody
      rw [List.flatten_cons, outcomes_succ_of_some (by rw [hcall]), hcall,
        ih (fun m' hm' => hms m' (List.mem_cons_of_mem m hm')) hrest (Nat.le_of_succ_le_succ hn)]
      rfl

/-- The first read that is not whole loses a message. -/
theorem outcomes_fresh_ne {msgs : List (List UInt8)} (hms : ∀ m ∈ msgs, framing.IsFrame m)
    (hwhole : ¬ Whole cut k msgs) (n : Nat) :
    outcomes (fresh msgs.flatten cut k uninit) n ≠ msgs.map .dispatch := by
  induction msgs generalizing k n with
  | nil => exact absurd (fun j r h => by cases h) hwhole
  | cons m msgs ih =>
      have hm := hms m List.mem_cons_self
      cases n with
      | zero => exact fun h => by cases h
      | succ n =>
          rw [List.flatten_cons]
          by_cases hnow : 8 ≤ cut k + 1 ∧ (8 < m.length → m.length - 8 ≤ cut (k + 1) + 1)
          · have hcall := fresh_whole msgs.flatten uninit hm hnow.1 hnow.2
            rw [outcomes_succ_of_some (by rw [hcall]), hcall]
            intro h
            have hlater : ¬ Whole cut (k + (requests [m]).length) msgs := fun hw => hwhole (whole_cons.mpr ⟨hnow, hw⟩)
            exact ih (fun m' hm' => hms m' (List.mem_cons_of_mem m hm')) hlater n (List.cons.inj h).2
          · obtain ⟨c', b', hb', hcall⟩ := fresh_short msgs.flatten uninit hm hnow
            rw [outcomes_succ_of_some (by rw [hcall]), hcall, List.nil_append]
            rcases outcomes_kept hb' n with hnil | ⟨o, os, hos, hne⟩
            · rw [hnil]
              exact fun h => by cases h
            · rw [hos]
              exact fun h => hne m hm (List.cons.inj h).1

end Fresh

/-- The messages are dispatched as they were sent if and only if no read returns less than it asks for. -/
theorem dispatches_iff {msgs : List (List UInt8)} (hms : ∀ m ∈ msgs, framing.IsFrame m) (cut : Nat → Nat)
    (uninit : Nat → Fin 8 → UInt8) :
    Dispatches (connected msgs cut uninit) msgs ↔
      ∀ j r, (requests msgs)[j]? = some r → r ≤ cut j + 1 := by
  have hiff : Whole cut 0 msgs ↔ ∀ j r, (requests msgs)[j]? = some r → r ≤ cut j + 1 := by
    simp only [Whole, Nat.zero_add]
  rw [← hiff]
  constructor
  · rintro ⟨N, h⟩
    by_contra hno
    exact outcomes_fresh_ne hms hno N (h N (Nat.le_refl N))
  · intro hwhole
    exact ⟨msgs.length, fun n hn => outcomes_fresh hms hwhole hn⟩

/-- One message of ten bytes that comes in two reads as the client asks for it. -/
theorem dispatches_iff_one :
    Dispatches (connected [[1, 23, 0, 10, 0, 0, 0, 2, 7, 9]] (fun _ => 7) fun _ _ => 0)
      [[1, 23, 0, 10, 0, 0, 0, 2, 7, 9]] := by
  have hms : ∀ m ∈ [([1, 23, 0, 10, 0, 0, 0, 2, 7, 9] : List UInt8)], framing.IsFrame m := by
    intro m hm
    cases List.mem_singleton.mp hm
    exact ⟨by decide, by decide⟩
  rw [dispatches_iff hms]
  intro j r hr
  have hmem : r ∈ requests [[1, 23, 0, 10, 0, 0, 0, 2, 7, 9]] := List.mem_of_getElem? hr
  rcases List.mem_cons.mp hmem with rfl | hmem
  · decide
  · cases List.mem_singleton.mp hmem
    decide

/-- A hello of the controller of which the first read returns one byte: nothing is ever dispatched. -/
theorem hello_lost :
    framing.IsFrame [1, 0, 0, 8, 0, 0, 0, 0] ∧
      ¬ Dispatches (connected [[1, 0, 0, 8, 0, 0, 0, 0]] (fun _ => 0) fun _ _ => 0) [[1, 0, 0, 8, 0, 0, 0, 0]] := by
  have hframe : framing.IsFrame [1, 0, 0, 8, 0, 0, 0, 0] := ⟨by decide, by decide⟩
  refine ⟨hframe, ?_⟩
  rintro ⟨N, h⟩
  refine outcomes_fresh_ne ?_ ?_ N (h N (Nat.le_refl N))
  · intro m hm
    cases List.mem_singleton.mp hm
    exact hframe
  · intro hwhole
    exact absurd (hwhole 0 8 rfl) (by decide)

end Harry.Ctrl
