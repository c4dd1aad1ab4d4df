import Harry.BaseBits

/-! The addresses of the SIS-IS processes (`sisis_api.c`): the fields of an address are written one after another into
the 128 bits of an IPv6 address, in groups of 16 as text, and read back from any text of that address. -/

namespace Harry.Sisis

open Harry.Base

/-- `sisis_component_t`: the width of a field, and its value if that is fixed. -/
structure Component where
  bits : Nat
  fixed : Option Nat

/-- `components`: prefix, version of the format, process type, process version, system id, process id, timestamp. -/
def components : List Component :=
  [⟨16, some 0xfcff⟩, ⟨5, some 2⟩, ⟨16, none⟩, ⟨5, none⟩, ⟨32, none⟩, ⟨22, none⟩, ⟨32, none⟩]

/-- The next component with bits left. `num_components` is the size of the table in bytes, so the loop reads behind the
table when there is none. -/
def findComponent : List Component → Nat → Nat → List Nat → Option (Nat × Nat × List Component × List Nat)
  | comps, n + 1, arg, args => some (n + 1, arg, comps, args)
  | ⟨bits, some v⟩ :: comps, 0, _, args => findComponent comps bits v args
  | ⟨bits, none⟩ :: comps, 0, _, arg :: args => findComponent comps bits arg args
  | _, 0, _, _ => none

/-- The next `n` bits of `arg` are shifted into `part`, an `unsigned short`. -/
def shiftIn (arg : Nat) : Nat → Nat → Nat → Nat
  | 0, _, part => part
  | n + 1, compBits, part =>
    shiftIn arg n (compBits - 1) (2 * part % 2 ^ 16 + (arg.testBit (compBits - 1)).toNat)

/-- `%04hx`. -/
def hex4 (g : Nat) : List Char :=
  [g / 16 ^ 3 % 16, g / 16 ^ 2 % 16, g / 16 % 16, g % 16].map Nat.digitChar

/-- The variables of the loop that writes an address. The groups have five characters with their colon, so the text ends
where the next group is put. -/
structure Create where
  bit : Nat
  comps : List Component
  args : List Nat
  compBits : Nat
  arg : Nat
  part : Nat
  text : List Char

def createStep (s : Create) : Option Create := do
  let (compBits, arg, comps, args) ← findComponent s.comps s.compBits s.arg s.args
  let consumed := min (16 - s.bit % 16) compBits
  let part := shiftIn arg consumed compBits s.part
  if (s.bit + consumed) % 16 = 0 then
    some ⟨s.bit + consumed, comps, args, compBits - consumed, arg, 0,
      s.text ++ (hex4 part ++ if s.bit + consumed = 128 then [] else [':'])⟩
  else some ⟨s.bit + consumed, comps, args, compBits - consumed, arg, part, s.text⟩

/-- The loop, which takes a bit at least in every round. -/
def createLoop : Nat → Create → Option (List Char)
  | 0, _ => none
  | n + 1, s => if s.bit < 128 then createStep s >>= createLoop n else some s.text

/-- `sisis_create_addr`. -/
def sisisCreateAddr (args : List Nat) : Option (List Char) := do
  let (compBits, arg, comps, args) ← findComponent components 0 0 args
  createLoop 129 ⟨0, comps, args, compBits, arg, 0, []⟩

/-- The value of a hexadecimal digit, in either case. -/
def hexVal (c : Char) : Option Nat :=
  if '0' ≤ c ∧ c ≤ '9' then some (c.toNat - '0'.toNat)
  else if 'a' ≤ c ∧ c ≤ 'f' then some (c.toNat - 'a'.toNat + 10)
  else if 'A' ≤ c ∧ c ≤ 'F' then some (c.toNat - 'A'.toNat + 10)
  else none

/-- The number that hexadecimal digits stand for. -/
def hexNumber (ds : List Char) : Nat := ds.foldl (fun v d => 16 * v + (hexVal d).getD 0) 0

/-- `sscanf` with `%4hx`, of a text without blanks, signs and `0x`; without a digit `part` stays as it is. -/
def scanHx (part : Nat) (text : List Char) : Nat :=
  match (text.take 4).takeWhile fun c => (hexVal c).isSome with
  | [] => part
  | d :: ds => hexNumber (d :: ds)

/-- To the character behind the next colon. -/
def nextGroup (text : List Char) : List Char := (text.dropWhile (· ≠ ':')).drop 1

/-- `::` is replaced by the groups it stands for: as many as colons are missing, and one more at the end of the text. -/
def expandLoop : Nat → Char → Nat → List Char → List Char
  | _, _, _, [] => []
  | idx, prev, colons, c :: rest =>
    if 1 < idx ∧ prev = ':' ∧ c = ':' then
      (List.replicate (7 - (colons - 1)) ['0', ':']).flatten ++ (if rest = [] then ['0'] else []) ++
        expandLoop (idx + 1) c (max 7 (colons - 1)) rest
    else c :: expandLoop (idx + 1) c colons rest

/-- The text with all groups, in an array of 47 characters. -/
def expand (text : List Char) : Option (List Char) :=
  let full := expandLoop 0 ' ' (text.count ':') text
  if full.length ≤ 46 then some full else none

/-- The next component with bits left; the variable of the one before is done. -/
def findWidth : List Component → Nat → Nat → List Nat → Option (Nat × Nat × List Component × List Nat)
  | comps, n + 1, arg, done => some (n + 1, arg, comps, done)
  | c :: comps, 0, arg, done => findWidth comps c.bits 0 (done ++ [arg])
  | [], 0, _, _ => none

/-- Bits of `part`, from `bit` on, are shifted into `arg`, a `uint64_t`. -/
def shiftOut (part : Nat) : Nat → Nat → Nat → Nat
  | 0, _, arg => arg
  | n + 1, bit, arg => shiftOut part n (bit + 1) (2 * arg % 2 ^ 64 + (part.testBit (15 - bit % 16)).toNat)

/-- The variables of the loop that reads an address; `done` are the components before the present one. -/
structure Get where
  bit : Nat
  comps : List Component
  compBits : Nat
  arg : Nat
  done : List Nat
  part : Nat
  text : List Char

/-- At the beginning of a group its text is read. -/
def Get.nextPart (s : Get) : Get :=
  if s.bit % 16 = 0 then { s with part := scanHx s.part s.text, text := nextGroup s.text } else s

def getStep (s : Get) : Option Get := do
  let s := s.nextPart
  let (compBits, arg, comps, done) ← findWidth s.comps s.compBits s.arg s.done
  let consumed := min (16 - s.bit % 16) compBits
  some { s with
    bit := s.bit + consumed
    comps := comps
    compBits := compBits - consumed
    arg := shiftOut s.part consumed s.bit arg
    done := done }

def getLoop : Nat → Get → Option (List Nat)
  | 0, _ => none
  | n + 1, s => if s.bit < 128 then getStep s >>= getLoop n else some (s.done ++ [s.arg])

/-- `get_sisis_addr_components`, with a variable for each of the components. -/
def getSisisAddrComponents (text : List Char) : Option (List Nat) := do
  let full ← expand text
  match components with
  | [] => none
  | c :: comps => getLoop 129 ⟨0, comps, c.bits, 0, [], 0, full⟩

/-- The widths of the components that are not fixed. -/
def freeWidths : List Nat := [16, 5, 32, 22, 32]

example : sisisCreateAddr [5, 1, 3, 77, 12345] = some "fcff:1000:2840:0000:00c0:004d:0000:3039".toList := by
  decide

example : getSisisAddrComponents "FCFF:1000:2840::C0:4d:0:3039".toList = some [0xfcff, 2, 5, 1, 3, 77, 12345] := by
  decide

/-- The bits that components and arguments still give. -/
inductive Pending : List Component → List Nat → List Bool → Prop where
  | nil : Pending [] [] []
  | fixed {comps : List Component} {args : List Nat} {l : List Bool} (w v : Nat) (h : Pending comps args l) :
      Pending (⟨w, some v⟩ :: comps) args (bitsOf w v ++ l)
  | free {comps : List Component} {args : List Nat} {l : List Bool} (w a : Nat) (h : Pending comps args l) :
      Pending (⟨w, none⟩ :: comps) (a :: args) (bitsOf w a ++ l)

theorem findComponent_spec {comps : List Component} {args : List Nat} {l : List Bool} (h : Pending comps args l)
    (compBits arg : Nat) (hne : bitsOf compBits arg ++ l ≠ []) :
    ∃ n arg' comps' args' l', findComponent comps compBits arg args = some (n + 1, arg', comps', args') ∧
      Pending comps' args' l' ∧ bitsOf (n + 1) arg' ++ l' = bitsOf compBits arg ++ l := by
  induction h generalizing compBits arg with
  | nil =>
      cases compBits with
      | zero => exact absurd rfl hne
      | succ n => exact ⟨n, arg, [], [], [], rfl, .nil, rfl⟩
  | @fixed comps args l w v h ih =>
      cases compBits with
      | zero =>
          obtain ⟨n, arg', comps', args', l', hfind, hpend, hbits⟩ := ih w v hne
          exact ⟨n, arg', comps', args', l', hfind, hpend, hbits⟩
      | succ n => exact ⟨n, arg, _, _, _, rfl, .fixed w v h, rfl⟩
  | @free comps args l w a h ih =>
      cases compBits with
      | zero =>
          obtain ⟨n, arg', comps', args', l', hfind, hpend, hbits⟩ := ih w a hne
          exact ⟨n, arg', comps', args', l', hfind, hpend, hbits⟩
      | succ n => exact ⟨n, arg, _, _, _, rfl, .free w a h, rfl⟩

theorem shiftIn_spec {arg n k : Nat} {p : List Bool} (hroom : p.length + n ≤ 16) :
    shiftIn arg n (n + k) (ofBits p) = ofBits (p ++ bitsOf n (arg >>> k)) := by
  induction n generalizing p with
  | zero => rw [shiftIn, bitsOf, List.append_nil]
  | succ n ih =>
      have hlow : n + 1 + k - 1 = n + k := by omega
      have hpart : 2 * ofBits p % 2 ^ 16 = 2 * ofBits p := by
        have hlt : ofBits p < 2 ^ 15 :=
          (ofBits_lt p).trans_le (Nat.pow_le_pow_right (by decide) (by omega))
        exact Nat.mod_eq_of_lt (by omega)
      have hbit : (arg >>> k).testBit n = arg.testBit (n + k) := by
        rw [Nat.testBit_shiftRight, Nat.add_comm]
      have hlen : (p ++ [arg.testBit (n + k)]).length + n ≤ 16 := by
        rw [List.length_append, List.length_singleton]
        omega
      rw [shiftIn, hlow, hpart, ← ofBits_concat, ih hlen, bitsOf, hbit, List.append_assoc, List.singleton_append]

/-- The text of groups. -/
def groupsText (gs : List Nat) : List Char := [':'].intercalate (gs.map hex4)

theorem groupsText_cons (g : Nat) (gs : List Nat) :
    groupsText (g :: gs) = hex4 g ++ (if gs = [] then [] else [':']) ++ groupsText gs := by
  cases gs with
  | nil => simp [groupsText]
  | cons g' gs => simp [groupsText]

/-- The groups of a string of bits. -/
def groupsOf (l : List Bool) : List Nat := unpack (List.replicate (l.length / 16) 16) l

theorem groupsOf_append {p l : List Bool} (hp : p.length = 16) : groupsOf (p ++ l) = ofBits p :: groupsOf l := by
  have hlen : (p ++ l).length / 16 = l.length / 16 + 1 := by
    rw [List.length_append, hp, Nat.add_comm 16, Nat.add_div_right _ (by decide)]
  rw [groupsOf, hlen, List.replicate_succ, unpack, List.take_left' hp, List.drop_left' hp, groupsOf]

theorem groupsOf_eq_nil_iff {l : List Bool} : groupsOf l = [] ↔ l.length < 16 := by
  have hdiv : l.length / 16 = 0 ↔ l.length < 16 := by omega
  rw [← hdiv, groupsOf]
  cases hq : l.length / 16 with
  | zero => simp [unpack]
  | succ q => simp [List.replicate_succ, unpack]

/-- The loop is on the way to `t`: `p` are the bits in `part`, and `l` those that come after the present component. -/
structure Writes (t : List Char) (s : Create) (p l : List Bool) : Prop where
  pending : Pending s.comps s.args l
  part : s.part = ofBits p
  length_part : p.length = s.bit % 16
  length : s.bit + (bitsOf s.compBits s.arg ++ l).length = 128
  text : t = s.text ++ groupsText (groupsOf (p ++ (bitsOf s.compBits s.arg ++ l)))

theorem Writes.step {t : List Char} {s : Create} {p l : List Bool} (h : Writes t s p l) (hbit : s.bit < 128) :
    ∃ s' p' l', createStep s = some s' ∧ s.bit < s'.bit ∧ Writes t s' p' l' := by
  obtain ⟨hpend, hpart, hp, hlen, htext⟩ := h
  have hne : bitsOf s.compBits s.arg ++ l ≠ [] := by
    intro hnil
    rw [hnil, List.length_nil] at hlen
    omega
  obtain ⟨k, arg, comps, args, l', hfind, hpend', hbits⟩ := findComponent_spec hpend s.compBits s.arg hne
  rw [← hbits] at hlen htext
  -- `c` bits of the component are taken in this round, and `r` stay
  obtain ⟨c, hc⟩ : ∃ c, c = min (16 - s.bit % 16) (k + 1) := ⟨_, rfl⟩
  obtain ⟨r, hr⟩ : ∃ r, k + 1 = c + r := ⟨k + 1 - c, by omega⟩
  have hround : createStep s = some (if (s.bit + c) % 16 = 0 then
      ⟨s.bit + c, comps, args, r, arg, 0,
        s.text ++ (hex4 (ofBits (p ++ bitsOf c (arg >>> r))) ++ if s.bit + c = 128 then [] else [':'])⟩
      else ⟨s.bit + c, comps, args, r, arg, ofBits (p ++ bitsOf c (arg >>> r)), s.text⟩) := by
    have hshift : shiftIn arg c (k + 1) s.part = ofBits (p ++ bitsOf c (arg >>> r)) := by
      rw [hpart, hr]
      exact shiftIn_spec (by omega)
    have hstay : k + 1 - c = r := by omega
    rw [createStep, hfind, Option.bind_eq_bind, Option.bind_some]
    simp only [← hc, hshift, hstay]
    split <;> rfl
  have hsplit : p ++ (bitsOf (k + 1) arg ++ l') = (p ++ bitsOf c (arg >>> r)) ++ (bitsOf r arg ++ l') := by
    rw [hr, bitsOf_add, List.append_assoc, List.append_assoc]
  have hlen' : s.bit + c + (bitsOf r arg ++ l').length = 128 := by
    rw [List.length_append, length_bitsOf] at hlen ⊢
    omega
  have hp' : (p ++ bitsOf c (arg >>> r)).length = s.bit % 16 + c := by
    rw [List.length_append, length_bitsOf, hp]
  rw [hsplit] at htext
  by_cases hfull : (s.bit + c) % 16 = 0
  · have hgroup : (p ++ bitsOf c (arg >>> r)).length = 16 := by omega
    rw [if_pos hfull] at hround
    refine ⟨_, [], l', hround, by simp only; omega, hpend', rfl, by simpa using hfull.symm, hlen', ?_⟩
    rw [htext, groupsOf_append hgroup, groupsText_cons]
    have hlast : groupsOf (bitsOf r arg ++ l') = [] ↔ s.bit + c = 128 := by
      rw [groupsOf_eq_nil_iff]
      omega
    simp only [hlast, List.nil_append, List.append_assoc]
  · rw [if_neg hfull] at hround
    exact ⟨_, p ++ bitsOf c (arg >>> r), l', hround, by simp only; omega, hpend', rfl, by simp only; omega, hlen',
      htext⟩

theorem Writes.loop {t : List Char} {n : Nat} {s : Create} {p l : List Bool} (h : Writes t s p l)
    (hn : 128 < n + s.bit) : createLoop n s = some t := by
  induction n generalizing s p l with
  | zero =>
      have := h.length
      omega
  | succ n ih =>
      rw [createLoop]
      by_cases hbit : s.bit < 128
      · obtain ⟨s', p', l', hstep, hless, h'⟩ := h.step hbit
        rw [if_pos hbit, hstep, Option.bind_eq_bind, Option.bind_some]
        exact ih h' (by omega)
      · have hlen := h.length
        have hempty : bitsOf s.compBits s.arg ++ l = [] := List.length_eq_zero_iff.mp (by omega)
        have hp : p = [] := List.length_eq_zero_iff.mp (by rw [h.length_part]; omega)
        rw [if_neg hbit, h.text, hempty, hp]
        simp [groupsOf, unpack, groupsText]

theorem fits_freeWidths {args : List Nat} (h : Fits freeWidths args) :
    ∃ ptype pver sys pid ts, args = [ptype, pver, sys, pid, ts] := by
  cases h with | @cons _ ptype _ _ _ h =>
  cases h with | @cons _ pver _ _ _ h =>
  cases h with | @cons _ sys _ _ _ h =>
  cases h with | @cons _ pid _ _ _ h =>
  cases h with | @cons _ ts _ _ _ h =>
  cases h with | nil =>
  exact ⟨ptype, pver, sys, pid, ts, rfl⟩

/-- The widths of all components. -/
def widths : List Nat := components.map Component.bits

/-- The address of arguments, in groups. -/
def address (args : List Nat) : List Nat := groupsOf (pack widths (0xfcff :: 2 :: args))

theorem sisisCreateAddr_eq {args : List Nat} (h : Fits freeWidths args) :
    sisisCreateAddr args = some (groupsText (address args)) := by
  obtain ⟨ptype, pver, sys, pid, ts, rfl⟩ := fits_freeWidths h
  have hpend : Pending components.tail [ptype, pver, sys, pid, ts]
      (pack widths.tail (2 :: [ptype, pver, sys, pid, ts])) :=
    .fixed 5 2 (.free 16 ptype (.free 5 pver (.free 32 sys (.free 22 pid (.free 32 ts .nil)))))
  have hpack : pack widths (0xfcff :: 2 :: [ptype, pver, sys, pid, ts]) =
      bitsOf 16 0xfcff ++ pack widths.tail (2 :: [ptype, pver, sys, pid, ts]) := by
    rw [widths, components, List.map_cons, pack, List.tail_cons]
  have hwrites : Writes (groupsText (address [ptype, pver, sys, pid, ts]))
      ⟨0, components.tail, [ptype, pver, sys, pid, ts], 16, 0xfcff, 0, []⟩ []
      (pack widths.tail (2 :: [ptype, pver, sys, pid, ts])) := by
    refine ⟨hpend, rfl, rfl, ?_, ?_⟩
    · simp only [widths, components, List.map_cons, List.map_nil, List.tail_cons, pack, List.length_append,
        length_bitsOf, List.length_nil]
    · rw [address, hpack, List.nil_append, List.nil_append]
  have hfind : findComponent components 0 0 [ptype, pver, sys, pid, ts] =
      some (16, 0xfcff, components.tail, [ptype, pver, sys, pid, ts]) := rfl
  rw [sisisCreateAddr, hfind, Option.bind_eq_bind, Option.bind_some]
  exact hwrites.loop (Nat.lt_succ_self 128)

/-! ### What is read -/

/-- The groups that are read from the text, one after another. -/
def Reads : List Char → List Nat → Prop
  | _, [] => True
  | text, g :: gs => (∀ part, scanHx part text = g) ∧ Reads (nextGroup text) gs

/-- The values in the end, when the bits `l` are still to come. -/
def cut (done : List Nat) (a : List Bool) (compBits : Nat) (comps : List Component) (l : List Bool) : List Nat :=
  done ++ ofBits (a ++ l.take compBits) :: unpack (comps.map Component.bits) (l.drop compBits)

/-- The bits of groups. -/
def groupBits (gs : List Nat) : List Bool := pack (List.replicate gs.length 16) gs

theorem findWidth_spec {comps : List Component} (hpos : ∀ c ∈ comps, 0 < c.bits ∧ c.bits ≤ 64) {compBits : Nat}
    {a : List Bool} (hroom : a.length + compBits ≤ 64) (done : List Nat)
    (hne : 0 < compBits + (comps.map Component.bits).sum) :
    ∃ n a' comps' done', findWidth comps compBits (ofBits a) done = some (n + 1, ofBits a', comps', done') ∧
      (∀ c ∈ comps', 0 < c.bits ∧ c.bits ≤ 64) ∧ a'.length + (n + 1) ≤ 64 ∧
      n + 1 + (comps'.map Component.bits).sum = compBits + (comps.map Component.bits).sum ∧
      ∀ l, cut done' a' (n + 1) comps' l = cut done a compBits comps l := by
  cases compBits with
  | succ n => exact ⟨n, a, comps, done, by rw [findWidth], hpos, hroom, rfl, fun _ => rfl⟩
  | zero =>
      cases comps with
      | nil => simp at hne
      | cons c comps =>
          obtain ⟨hc, hcs⟩ := List.forall_mem_cons.mp hpos
          obtain ⟨n, hn⟩ : ∃ n, c.bits = n + 1 := ⟨c.bits - 1, by omega⟩
          refine ⟨n, [], comps, done ++ [ofBits a], ?_, hcs, ?_, ?_, ?_⟩
          · rw [findWidth, hn, findWidth, ofBits_nil]
          · rw [List.length_nil]
            omega
          · rw [List.map_cons, List.sum_cons, hn]
            omega
          · intro l
            rw [cut, cut, List.map_cons, unpack, hn, List.drop_zero, List.take_zero, List.append_nil, List.nil_append,
              List.append_assoc, List.singleton_append]

theorem shiftOut_spec {part n r bit : Nat} {a : List Bool} (hr : r + n + bit % 16 = 16) (hroom : a.length + n ≤ 64) :
    shiftOut part n bit (ofBits a) = ofBits (a ++ bitsOf n (part >>> r)) := by
  induction n generalizing a bit with
  | zero => rw [shiftOut, bitsOf, List.append_nil]
  | succ n ih =>
      have harg : 2 * ofBits a % 2 ^ 64 = 2 * ofBits a := by
        have hlt : ofBits a < 2 ^ 63 :=
          (ofBits_lt a).trans_le (Nat.pow_le_pow_right (by decide) (by omega))
        exact Nat.mod_eq_of_lt (by omega)
      have hbit : (part >>> r).testBit n = part.testBit (15 - bit % 16) := by
        rw [Nat.testBit_shiftRight]
        congr 1
        omega
      have hlen : (a ++ [part.testBit (15 - bit % 16)]).length + n ≤ 64 := by
        rw [List.length_append, List.length_singleton]
        omega
      rw [shiftOut, harg, ← ofBits_concat, bitsOf, hbit]
      cases n with
      | zero => rw [shiftOut, bitsOf]
      | succ n => rw [ih (by omega) hlen, List.append_assoc, List.singleton_append]

/-- The loop is on the way to `vs`: `a` are the bits in `*arg`, and `gs` the groups that are not yet read. -/
structure Gets (vs : List Nat) (s : Get) (a : List Bool) (gs : List Nat) : Prop where
  widths : ∀ c ∈ s.comps, 0 < c.bits ∧ c.bits ≤ 64
  arg : s.arg = ofBits a
  room : a.length + s.compBits ≤ 64
  bit : s.bit + (16 - s.bit % 16) % 16 + 16 * gs.length = 128
  length : s.bit + (s.compBits + (s.comps.map Component.bits).sum) = 128
  reads : Reads s.text gs
  values : vs = cut s.done a s.compBits s.comps (bitsOf ((16 - s.bit % 16) % 16) s.part ++ groupBits gs)

/-- After the next part is read there are bits in it. -/
theorem Gets.nextPart {vs : List Nat} {s : Get} {a : List Bool} {gs : List Nat} (h : Gets vs s a gs)
    (hbit : s.bit < 128) : ∃ part text gs', s.nextPart = { s with part := part, text := text } ∧ Reads text gs' ∧
      s.bit + (16 - s.bit % 16) + 16 * gs'.length = 128 ∧
      vs = cut s.done a s.compBits s.comps (bitsOf (16 - s.bit % 16) part ++ groupBits gs') := by
  have hall := h.bit
  by_cases hnew : s.bit % 16 = 0
  · cases gs with
    | nil =>
        rw [List.length_nil] at hall
        omega
    | cons g gs =>
        obtain ⟨hscan, hreads⟩ := h.reads
        refine ⟨g, nextGroup s.text, gs, ?_, hreads, ?_, ?_⟩
        · rw [Get.nextPart, if_pos hnew, hscan]
        · rw [List.length_cons] at hall
          omega
        · rw [h.values, hnew]
          rfl
  · have hsame : (16 - s.bit % 16) % 16 = 16 - s.bit % 16 := Nat.mod_eq_of_lt (by omega)
    refine ⟨s.part, s.text, gs, by rw [Get.nextPart, if_neg hnew], h.reads, by omega, ?_⟩
    rw [h.values, hsame]

theorem Gets.step {vs : List Nat} {s : Get} {a : List Bool} {gs : List Nat} (h : Gets vs s a gs) (hbit : s.bit < 128) :
    ∃ s' a' gs', getStep s = some s' ∧ s.bit < s'.bit ∧ Gets vs s' a' gs' := by
  obtain ⟨part, text, gs', hpart, hreads, hall, hvalues⟩ := h.nextPart hbit
  have hlen := h.length
  obtain ⟨n, b, comps, done, hfind, hpos, hroom, hsum, hjoin⟩ :=
    findWidth_spec h.widths h.room s.done (by omega)
  -- `c` bits of the group are taken in this round; `r` stay of the group, and `q` of the component
  obtain ⟨c, hc⟩ : ∃ c, c = min (16 - s.bit % 16) (n + 1) := ⟨_, rfl⟩
  obtain ⟨r, hr⟩ : ∃ r, 16 - s.bit % 16 = c + r := ⟨16 - s.bit % 16 - c, by omega⟩
  obtain ⟨q, hq⟩ : ∃ q, n + 1 = c + q := ⟨n + 1 - c, by omega⟩
  have hround : getStep s = some ⟨s.bit + c, comps, q, ofBits (b ++ bitsOf c (part >>> r)), done, part, text⟩ := by
    have hshift : shiftOut part c s.bit (ofBits b) = ofBits (b ++ bitsOf c (part >>> r)) :=
      shiftOut_spec (by omega) (by omega)
    have hstay : n + 1 - c = q := by omega
    rw [getStep, hpart]
    simp only [h.arg, hfind, Option.bind_eq_bind, Option.bind_some, ← hc, hshift, hstay]
  have hleft : (16 - (s.bit + c) % 16) % 16 = r := by omega
  refine ⟨_, b ++ bitsOf c (part >>> r), gs', hround, by simp only; omega, hpos, rfl, ?_, ?_, ?_, hreads, ?_⟩
  · simp only [List.length_append, length_bitsOf]
    omega
  · simp only
    omega
  · simp only
    omega
  · have htaken : (bitsOf c (part >>> r)).length = c := length_bitsOf _ _
    rw [hvalues, ← hjoin, hleft, hr, hq, bitsOf_add, cut, cut, List.append_assoc, List.take_append, List.drop_append,
      htaken, List.take_of_length_le (by omega), List.drop_of_length_le (by omega), Nat.add_sub_cancel_left,
      List.append_assoc, List.nil_append]

theorem Gets.loop {vs : List Nat} {n : Nat} {s : Get} {a : List Bool} {gs : List Nat} (h : Gets vs s a gs)
    (hn : 128 < n + s.bit) : getLoop n s = some vs := by
  induction n generalizing s a gs with
  | zero =>
      have := h.length
      omega
  | succ n ih =>
      rw [getLoop]
      by_cases hbit : s.bit < 128
      · obtain ⟨s', a', gs', hstep, hless, h'⟩ := h.step hbit
        rw [if_pos hbit, hstep, Option.bind_eq_bind, Option.bind_some]
        exact ih h' (by omega)
      · have hlen := h.length
        have hgs : gs = [] := List.length_eq_zero_iff.mp (by have := h.bit; omega)
        have hcomps : s.comps = [] := by
          cases hcs : s.comps with
          | nil => rfl
          | cons c cs =>
              have hc := (h.widths c (by rw [hcs]; exact List.mem_cons_self)).1
              rw [hcs, List.map_cons, List.sum_cons] at hlen
              omega
        have hvs := h.values
        rw [hcomps] at hlen hvs
        have h128 : s.bit = 128 := by omega
        rw [if_neg hbit, hvs, hgs, h128, h.arg]
        simp [cut, groupBits, bitsOf, pack, unpack]

end Harry.Sisis
