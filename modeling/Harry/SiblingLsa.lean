import Harry.SiblingState

/-! `ospf6_lsa.c`: the age of an LSA as the clock shows it, the comparison of two instances, the
checksum, and the copies that the lists are made of. -/

namespace Harry.Sibling

open Harry.Base Harry.Rfp

def maxage : UInt16 := 3600
def maxAgeDiff : Nat := 900
def minLsArrival : Int := 1
def initialSequenceNumber : UInt32 := 0x80000001
def maxSequenceNumber : UInt32 := 0x7fffffff

def lstypeRouter : UInt16 := 0x2001
def lstypeNetwork : UInt16 := 0x2002
def lstypeAsExternal : UInt16 := 0x4005
def lstypeLink : UInt16 := 0x0008
def lstypeIntraPrefix : UInt16 := 0x2009

inductive Scope where
  | linklocal | area | as | reserved
  deriving DecidableEq

/-- `OSPF6_LSA_SCOPE`. -/
def lsaScope (type : UInt16) : Scope :=
  match (type &&& 0x6000).toNat with
  | 0x0000 => .linklocal
  | 0x2000 => .area
  | 0x4000 => .as
  | _ => .reserved

/-- The 16 bits of a number in network order. -/
def htons16 (x : UInt16) : List UInt8 := htons x.toNat

/-- An LSA header as it is sent. -/
def LsaHeader.bytes (age : UInt16) (h : LsaHeader) : List UInt8 :=
  htons16 age ++ htons16 h.type ++ htonl h.id ++ htonl h.advRouter ++ htonl h.seqnum ++ htons16 h.checksum ++
    htons16 h.length

/-- The seconds since the birth, up to `MAXAGE`. -/
def Lsa.sinceBirth (l : Lsa) (now : Timeval) : UInt16 :=
  let ulage := ((now.sec - l.birth.sec) % 2 ^ 32).toNat
  if maxage.toNat < ulage then maxage else UInt16.ofNat ulage

/-- The age `ospf6_lsa_age_current` finds at a time: an age of `MAXAGE` in the header stays. -/
def Lsa.ageAt (l : Lsa) (now : Timeval) : UInt16 := if maxage ≤ l.age then maxage else l.sinceBirth now

/-- Whether an LSA was installed less than `MIN_LS_ARRIVAL` before a time. -/
def Lsa.arrivedAt (l : Lsa) (now : Timeval) : Bool :=
  let sec := now.sec - l.installed.sec
  let res := if now.usec - l.installed.usec < 0 then sec - 1 else sec
  decide (res < minLsArrival)

section Age

variable {ρ : Type}

open Prog

/-- `ospf6_lsa_age_current`: the age also goes into the header. -/
def ageCurrent (a : Addr) : M ρ UInt16 := do
  let now ← gettime
  hidden fun m => ((m.lsa a).ageAt now, m.update a fun l => { l with age := l.ageAt now })

/-- What is left of the LSAs after it. -/
def Mem.refresh (m : Mem) (a : Addr) : Mem := m.tick.update a fun l => { l with age := l.ageAt (m.clock 0) }

theorem ageCurrent_eq (a : Addr) :
    (ageCurrent a : M ρ UInt16) = hidden fun m => ((m.lsa a).ageAt (m.clock 0), m.refresh a) := rfl

/-- `OSPF6_LSA_IS_MAXAGE`. -/
def isMaxage (a : Addr) : M ρ Bool := do
  let age ← ageCurrent a
  pure (age == maxage)

/-- `ospf6_lsa_age_update_to_send`; the sum is cut to sixteen bits. -/
def ageUpdateToSend (a : Addr) (transdelay : UInt32) : M ρ UInt16 := do
  let current ← ageCurrent a
  let age := UInt16.ofNat ((current.toNat + transdelay.toNat) % 2 ^ 32)
  let age := if maxage < age then maxage else age
  modifyLsa a fun l => { l with age := age }
  pure age

/-- `ospf6_lsa_header_print`, which brings the age up to date. -/
def headerPrint (a : Addr) : M ρ Unit := do
  let _ ← ageCurrent a
  pure ()

/-- `ospf6_lsa_premature_aging`; the expiration it executes does nothing. -/
def prematureAging (a : Addr) : M ρ Unit := modifyLsa a fun l => { l with age := maxage }

/-- `lsa->header->age = htons(0)`. -/
def clearAge (a : Addr) : M ρ Unit := modifyLsa a fun l => { l with age := 0 }

end Age

/-! ### Instances -/

/-- A 32-bit number read as a signed one. -/
def signed (x : UInt32) : Int := if x.toNat < 2 ^ 31 then x.toNat else (x.toNat : Int) - 2 ^ 32

/-- The part of `ospf6_lsa_compare` that goes by age. -/
def compareAge (a b : UInt16) : Int :=
  if a = maxage ∧ b ≠ maxage then -1
  else if a ≠ maxage ∧ b = maxage then 1
  else if b < a ∧ maxAgeDiff ≤ a.toNat - b.toNat then 1
  else if a < b ∧ maxAgeDiff ≤ b.toNat - a.toNat then -1
  else 0

section Instances

variable {ρ : Type}

/-- The last part of `ospf6_lsa_compare`, by the ages the LSAs have now. -/
def compareAges (a b : Addr) : M ρ Int := do
  let agea ← ageCurrent a
  let ageb ← ageCurrent b
  pure (compareAge agea ageb)

/-- `ospf6_lsa_compare`: negative if `a` is the more recent one. -/
def lsaCompare (a b : Addr) : M ρ Int := do
  let info ← infos
  let ha := (info a).header
  let hb := (info b).header
  assert (ha.key == hb.key)
  if signed hb.seqnum < signed ha.seqnum then pure (-1)
  else if signed ha.seqnum < signed hb.seqnum then pure 1
  else if hb.checksum < ha.checksum then pure (-1)
  else if ha.checksum < hb.checksum then pure 0
  else compareAges a b

/-- `ospf6_lsa_is_changed`. -/
def lsaIsChanged (a b : Addr) : M ρ Bool := do
  let ma ← isMaxage a
  let mb ← isMaxage b
  let info ← infos
  if ma != mb then pure true
  else if (info a).header.length != (info b).header.length then pure true
  else do
    assert (decide (20 < (info a).header.length.toNat))
    pure ((info a).body != (info b).body)

/-- `ospf6_lsa_is_differ`. -/
def lsaIsDiffer (a b : Addr) : M ρ Bool := do
  let info ← infos
  assert ((info a).header.key == (info b).header.key)
  let ma ← isMaxage a
  let mb ← isMaxage b
  if ma != mb then pure true
  else if (info a).header.length != (info b).header.length then pure true
  else pure ((info a).body != (info b).body)

/-- A new LSA, born as many seconds ago as its header says (`ospf6_lsa_age_set`). -/
def Lsa.born (info : LsaInfo) (age : UInt16) (now : Timeval) : Lsa :=
  { info with age := age, birth := ⟨now.sec - age.toNat, now.usec⟩, installed := ⟨0, 0⟩ }

def lsaBorn (info : LsaInfo) (age : UInt16) : M ρ Addr := do
  let now ← gettime
  calloc (Lsa.born info age now)

/-- What `calloc` leaves around a header. -/
def LsaInfo.ofHeader (header : LsaHeader) (body : List UInt8) (headeronly : Bool) : LsaInfo where
  header := header
  body := body
  headeronly := headeronly
  floodback := false
  duplicate := false
  impliedack := false
  retransCount := 0
  lsdb := none
  hostnum := 0

/-- `ospf6_lsa_create`. -/
def lsaCreate (age : UInt16) (header : LsaHeader) (body : List UInt8) : M ρ Addr :=
  lsaBorn (.ofHeader header body false) age

/-- `ospf6_lsa_create_headeronly`. -/
def lsaCreateHeaderonly (age : UInt16) (header : LsaHeader) : M ρ Addr :=
  lsaBorn (.ofHeader header [] true) age

/-- A copy has the birth of the original, not its flags and counts. -/
def Lsa.copy (l : Lsa) : Lsa :=
  { l with toLsaInfo := { LsaInfo.ofHeader l.header l.body l.headeronly with lsdb := l.lsdb } }

/-- `ospf6_lsa_copy`. -/
def lsaCopy (a : Addr) : M ρ Addr := do
  let _ ← ageCurrent a
  Prog.hidden fun m => (m.heap.length, m.push (m.lsa a).copy)

end Instances

/-- `MODX`. -/
def modx : Nat := 4102

def fletcherStep (c : Nat × Nat) (b : UInt8) : Nat × Nat := (c.1 + b.toNat, c.2 + (c.1 + b.toNat))

/-- The sums over stretches of `MODX` bytes, reduced after each of them. -/
def fletcher : Nat → List UInt8 → Nat × Nat → Nat × Nat
  | 0, _, c => c
  | n + 1, bs, c =>
    if bs = [] then c
    else
      let c := (bs.take modx).foldl fletcherStep c
      fletcher n (bs.drop modx) (c.1 % 255, c.2 % 255)

/-- `ospf6_lsa_checksum`: over the bytes from the type on, with the checksum field zero. -/
def lsaChecksum (h : LsaHeader) (body : List UInt8) : UInt16 :=
  let bs := ({ h with checksum := 0 }.bytes 0).drop 2 ++ body
  let length := h.length.toNat - 2
  let c := fletcher bs.length (bs.take length) (0, 0)
  let x := ((length - 15 : Int) * c.1 - c.2).tmod 255
  let x := if x ≤ 0 then x + 255 else x
  let y := 510 - c.1 - x
  let y := if 255 < y then y - 255 else y
  UInt16.ofNat (x * 2 ^ 8 + y).toNat

end Harry.Sibling
