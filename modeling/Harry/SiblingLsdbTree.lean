import Harry.BaseLinked
import Harry.RouteNode
import Harry.SiblingLsdb

/-! `ospf6_lsdb.c` over the tree of `lib/table.c`: a database holds its LSAs on the nodes of the tree and in a doubly
linked list that is threaded through the LSAs themselves, and the two are kept in step by the functions that add and
remove. An LSA is known by its address; it is freed when it is unlocked for the last time, and to touch it afterwards
has no result, as a failed assertion has none. The hooks of a database are left out: they do not change it. The
comparison that decides about them is not, since it can fail. Locks of nodes are natural numbers: what is said of a
run holds as long as nobody holds a node `2 ^ 32` times. -/

namespace Harry.LsdbTree

open Harry.Base Harry.Table Harry.Rfp Harry.Sibling

/-- The key of `ospf6_lsdb_type_head`, as `ospf6_lsdb_set_key` lays it out. -/
def typeKey (type : UInt16) : List UInt8 :=
  htons type.toNat

/-- The key of `ospf6_lsdb_type_router_head`. -/
def typeRouterKey (type : UInt16) (advRouter : UInt32) : List UInt8 :=
  typeKey type ++ htonl advRouter

/-- The key of an LSA. -/
def lsaKey (k : LsaKey) : List UInt8 :=
  typeRouterKey k.type k.advRouter ++ htonl k.id

/-- The node of an LSA. -/
def nodeOf (k : LsaKey) : List Bool :=
  byteBits (lsaKey k)

/-- A database and the LSAs there are: the key and the length in the header of each, whether there is no more of it
than the header, its links, its reference counter, and whether it has been allocated and not freed. -/
structure Db where
  key : Addr → LsaKey
  length : Addr → UInt16
  headeronly : Addr → Bool
  next : Addr → Option Addr
  prev : Addr → Option Addr
  lock : Addr → UInt8
  live : Addr → Bool
  table : RouteTable Addr
  count : Nat

/-- `ospf6_lsa_create` and `ospf6_lsa_create_headeronly`, at an address that is free. -/
def lsaCreate (s : Db) (a : Addr) (k : LsaKey) (length : UInt16) (headeronly : Bool) : Db :=
  { s with
    key := Function.update s.key a k
    length := Function.update s.length a length
    headeronly := Function.update s.headeronly a headeronly
    next := Function.update s.next a none
    prev := Function.update s.prev a none
    lock := Function.update s.lock a 0
    live := Function.update s.live a true }

def Db.incLock (s : Db) (a : Addr) : Db :=
  { s with lock := Function.update s.lock a (s.lock a + 1) }

/-- The LSA is held by one less, and freed if it was the last one. -/
def Db.decLock (s : Db) (a : Addr) : Db :=
  { s with
    lock := Function.update s.lock a (s.lock a - 1)
    live := if s.lock a - 1 = 0 then Function.update s.live a false else s.live }

/-- `ospf6_lsa_lock`. -/
def lsaLock (s : Db) (a : Addr) : Option Db :=
  if s.live a then some (s.incLock a) else none

/-- `ospf6_lsa_unlock`. -/
def lsaUnlock (s : Db) (a : Addr) : Option Db :=
  if s.live a ∧ 0 < s.lock a then some (s.decLock a) else none

/-- `if (o) o->next = v`. -/
def setNext (s : Db) (o v : Option Addr) : Option Db :=
  if ∀ a ∈ o, s.live a then some { s with next := updateAt s.next o v } else none

/-- `if (o) o->prev = v`. -/
def setPrev (s : Db) (o v : Option Addr) : Option Db :=
  if ∀ a ∈ o, s.live a then some { s with prev := updateAt s.prev o v } else none

/-- The LSA on a node that a loop has found; the node is unlocked. -/
def takeInfo (s : Db) : RouteTable Addr × Option (List Bool) → Option (Db × Option Addr)
  | (t, none) => some ({ s with table := t }, none)
  | (t, some b) => do
    let t' ← routeUnlockNode t b
    pure ({ s with table := t' }, t.info b)

/-- `ospf6_lsdb_lookup`. -/
def lsdbLookup (s : Db) (k : LsaKey) : Db × Option Addr :=
  match routeNodeLookup s.table (nodeOf k) with
  | (t, none) => ({ s with table := t }, none)
  | (t, some b) => ({ s with table := t }, t.info b)

/-- Two LSAs that `ospf6_lsa_is_changed` can tell apart or compare. `expired` are the LSAs of which the age is MaxAge
by now. -/
def Comparable (s : Db) (expired : Addr → Bool) (a b : Addr) : Prop :=
  expired a ≠ expired b ∨ s.length a ≠ s.length b ∨
    20 < s.length a ∧ s.headeronly a = false ∧ s.headeronly b = false

instance (s : Db) (expired : Addr → Bool) (a b : Addr) : Decidable (Comparable s expired a b) :=
  inferInstanceAs (Decidable (_ ∨ _ ∨ _))

/-- `ospf6_lsa_is_changed`. What it returns is for the hooks alone. LSAs of one length must have something behind their
headers, and the comparison must find it in memory. -/
def lsaIsChanged (s : Db) (expired : Addr → Bool) (a b : Addr) : Option Unit :=
  if Comparable s expired a b then some () else none

/-- `ospf6_lsdb_add`, when the age of the LSAs in `expired` is MaxAge. -/
def lsdbAdd (s : Db) (expired : Addr → Bool) (a : Addr) : Option Db := do
  let b := nodeOf (s.key a)
  let t := routeNodeGet s.table b
  let old := t.info b
  let s ← lsaLock { s with table := t.setInfo b (some a) } a
  match old with
  | some o => do
    let s ← setNext s (s.prev o) (some a)
    let s ← setPrev s (s.next o) (some a)
    let s ← setNext s (some a) (s.next o)
    let s ← setPrev s (some a) (s.prev o)
    lsaIsChanged s expired o a
    lsaUnlock s o
  | none => do
    let found ← nextInfo s.table.top.nodes.length (routeLockNode s.table b) b
    let (s, next) ← takeInfo s found
    let s ← setNext s (some a) next
    let s ← setPrev s next (some a)
    let found ← prevInfo s.table.top.nodes.length (routeLockNode s.table b) b
    let (s, prev) ← takeInfo s found
    let s ← setPrev s (some a) prev
    let s ← setNext s prev (some a)
    pure { s with count := s.count + 1 }

/-- `ospf6_lsdb_remove`. -/
def lsdbRemove (s : Db) (a : Addr) : Option Db :=
  match routeNodeLookup s.table (nodeOf (s.key a)) with
  | (_, none) => none
  | (t, some b) =>
    if s.live a ∧ t.info b = some a then do
      let s ← setNext { s with table := t } (s.prev a) (s.next a)
      let s ← setPrev s (s.next a) (s.prev a)
      let s ← lsaUnlock { s with table := s.table.setInfo b none, count := s.count - 1 } a
      let t ← routeUnlockNode s.table b
      pure { s with table := t }
    else none

/-- A pointer to an LSA, locked if it is not null. -/
def lsaLock? (s : Db) : Option Addr → Option Db
  | none => some s
  | some a => lsaLock s a

/-- `ospf6_lsdb_head`. -/
def lsdbHead (s : Db) : Option (Db × Option Addr) := do
  let (t, b) := routeTop s.table
  let found ← skipToInfo t b
  let (s, a) ← takeInfo s found
  let s ← lsaLock? s a
  pure (s, a)

/-- `ospf6_lsdb_next`. -/
def lsdbNext (s : Db) (a : Addr) : Option (Db × Option Addr) := do
  let next := s.next a
  let s ← lsaUnlock s a
  let s ← lsaLock? s next
  pure (s, next)

/-- `ospf6_lsdb_type_head` and `ospf6_lsdb_type_router_head`, which differ in the key. -/
def lsdbRangeHead (s : Db) (k : List UInt8) : Option (Db × Option Addr) := do
  let (t, b) ← rangeHead s.table (byteBits k)
  let a := b.bind t.info
  let s ← lsaLock? { s with table := t } a
  pure (s, a)

def lsdbTypeHead (s : Db) (type : UInt16) : Option (Db × Option Addr) :=
  lsdbRangeHead s (typeKey type)

def lsdbTypeRouterHead (s : Db) (type : UInt16) (advRouter : UInt32) : Option (Db × Option Addr) :=
  lsdbRangeHead s (typeRouterKey type advRouter)

/-- `ospf6_lsdb_type_next` and `ospf6_lsdb_type_router_next`, which differ in what they compare. -/
def lsdbRangeNext (same : LsaKey → Bool) (s : Db) (a : Addr) : Option (Db × Option Addr) :=
  if s.live a ∧ ∀ c ∈ s.next a, s.live c then do
    let next := (s.next a).filter fun c => same (s.key c)
    let s ← lsaLock? s next
    let s ← lsaUnlock s a
    pure (s, next)
  else none

def lsdbTypeNext (type : UInt16) : Db → Addr → Option (Db × Option Addr) :=
  lsdbRangeNext fun k => k.type == type

def lsdbTypeRouterNext (type : UInt16) (advRouter : UInt32) : Db → Addr → Option (Db × Option Addr) :=
  lsdbRangeNext fun k => k.type == type && k.advRouter == advRouter

/-- A loop over a database: `visit` is done at each LSA, then `next` leads to the next one. The LSAs in the order in
which the loop comes to them. -/
def loopFrom (visit : Db → Addr → Option Db) (next : Db → Addr → Option (Db × Option Addr)) :
    Nat → Db → Option Addr → Option (Db × List Addr)
  | _, s, none => some (s, [])
  | 0, _, some _ => none
  | n + 1, s, some a => do
    let s ← visit s a
    let (s, c) ← next s a
    let (s, l) ← loopFrom visit next n s c
    pure (s, a :: l)

/-- A loop with `ospf6_lsdb_head` and `ospf6_lsdb_next` that removes the LSAs it does not want to keep. -/
def sweep (drop : Addr → Bool) (s : Db) : Option (Db × List Addr) := do
  let n := s.table.top.nodes.length
  let (s, a) ← lsdbHead s
  loopFrom (fun s a => if drop a then lsdbRemove s a else some s) lsdbNext n s a

/-- `ospf6_lsdb_remove_all`. -/
def lsdbRemoveAll (s : Db) : Option Db :=
  (sweep (fun _ => true) s).map Prod.fst

/-- A loop with `ospf6_lsdb_type_head` and `ospf6_lsdb_type_next`. -/
def typeWalk (type : UInt16) (s : Db) : Option (Db × List Addr) := do
  let n := s.table.top.nodes.length
  let (s, a) ← lsdbTypeHead s type
  loopFrom (fun s _ => some s) (lsdbTypeNext type) n s a

/-- A loop with `ospf6_lsdb_type_router_head` and `ospf6_lsdb_type_router_next`. -/
def typeRouterWalk (type : UInt16) (advRouter : UInt32) (s : Db) : Option (Db × List Addr) := do
  let n := s.table.top.nodes.length
  let (s, a) ← lsdbTypeRouterHead s type advRouter
  loopFrom (fun s _ => some s) (lsdbTypeRouterNext type advRouter) n s a

section Keys

variable {j k : LsaKey} {type : UInt16} {advRouter : UInt32}

theorem htonl_injective {x y : UInt32} (h : htonl x = htonl y) : x = y := by
  simp only [htonl, List.cons.injEq, and_true] at h
  obtain ⟨h0, h1, h2, h3⟩ := h
  rw [← ntohl_htonl x, ← ntohl_htonl y, h0, h1, h2, h3]

theorem htons_injective {x y : UInt16} (h : htons x.toNat = htons y.toNat) : x = y := by
  have hx := x.toNat_lt
  have hy := y.toNat_lt
  simp only [htons, List.cons.injEq, and_true] at h
  obtain ⟨h0, h1⟩ := h
  have h0 := congrArg UInt8.toNat h0
  have h1 := congrArg UInt8.toNat h1
  simp only [UInt8.toNat_ofNat'] at h0 h1
  apply UInt16.toNat_inj.mp
  omega

theorem length_lsaKey (k : LsaKey) : (lsaKey k).length = 10 := rfl

theorem length_nodeOf (k : LsaKey) : (nodeOf k).length = 80 := by
  rw [nodeOf, length_byteBits, length_lsaKey]

theorem nodeOf_lt_iff : nodeOf j < nodeOf k ↔ lsaKey j < lsaKey k :=
  byteBits_lt_iff (by rw [length_lsaKey, length_lsaKey])

theorem lsaKey_injective (h : lsaKey j = lsaKey k) : j = k := by
  obtain ⟨htr, hid⟩ := List.append_inj h rfl
  obtain ⟨ht, hr⟩ := List.append_inj htr rfl
  have ht := htons_injective ht
  have hr := htonl_injective hr
  have hid := htonl_injective hid
  cases j
  cases k
  simp_all

theorem nodeOf_injective (h : nodeOf j = nodeOf k) : j = k :=
  lsaKey_injective ((byteBits_inj (by rw [length_lsaKey, length_lsaKey])).mp h)

/-- The nodes of a range: the LSAs whose key begins with the given one. -/
theorem prefix_nodeOf_iff {bs cs ds : List UInt8} (hk : lsaKey k = cs ++ ds) (hlen : bs.length = cs.length) :
    byteBits bs <+: nodeOf k ↔ cs = bs := by
  rw [nodeOf, hk, byteBits_append]
  constructor
  · intro h
    have hpre : byteBits bs <+: byteBits cs :=
      List.prefix_of_prefix_length_le h (List.prefix_append _ _)
        (by rw [length_byteBits, length_byteBits, hlen])
    have heq := hpre.eq_of_length (by rw [length_byteBits, length_byteBits, hlen])
    exact ((byteBits_inj hlen).mp heq).symm
  · rintro rfl
    exact List.prefix_append _ _

theorem typeKey_prefix_iff : byteBits (typeKey type) <+: nodeOf k ↔ k.type = type := by
  have hk : lsaKey k = typeKey k.type ++ (htonl k.advRouter ++ htonl k.id) := by simp [lsaKey, typeRouterKey]
  have hlen : (typeKey type).length = (typeKey k.type).length := rfl
  rw [prefix_nodeOf_iff hk hlen]
  exact ⟨htons_injective, fun h => by rw [h]⟩

theorem typeRouterKey_prefix_iff :
    byteBits (typeRouterKey type advRouter) <+: nodeOf k ↔ k.type = type ∧ k.advRouter = advRouter := by
  have hk : lsaKey k = typeRouterKey k.type k.advRouter ++ htonl k.id := rfl
  have hlen : (typeRouterKey type advRouter).length = (typeRouterKey k.type k.advRouter).length := rfl
  rw [prefix_nodeOf_iff hk hlen]
  constructor
  · intro h
    obtain ⟨ht, hr⟩ := List.append_inj h rfl
    exact ⟨htons_injective ht, htonl_injective hr⟩
  · rintro ⟨rfl, rfl⟩
    rfl

end Keys

/-- Who holds an LSA: the database if it is in it, and the loop that stands at it. -/
def holders (l : List Addr) (cur : Option Addr) (a : Addr) : UInt8 :=
  (if a ∈ l then 1 else 0) + (if cur = some a then 1 else 0)

/-- A database holds the LSAs of a list, in the order of the list, while a loop may stand at one LSA. -/
structure Rep (s : Db) (cur : Option Addr) (l : List Addr) : Prop where
  kept : Kept s.table
  glue : ∀ b ∈ s.table.top.nodes, b.length ≠ 80 → s.table.top.Full b
  stored : stored s.table = l.map fun a => nodeOf (s.key a)
  info : ∀ a ∈ l, s.table.info (nodeOf (s.key a)) = some a
  linked : Linked s.next s.prev l
  count : s.count = l.length
  live : ∀ a ∈ l, s.live a = true
  cur_live : ∀ a ∈ cur, s.live a = true
  lock : ∀ a, s.live a = true → s.lock a = holders l cur a

/-- The empty database. -/
def empty (key : Addr → LsaKey) : Db where
  key := key
  length _ := 0
  headeronly _ := false
  next _ := none
  prev _ := none
  lock _ := 0
  live _ := false
  table := routeTableInit
  count := 0

theorem rep_empty (key : Addr → LsaKey) : Rep (empty key) none [] where
  kept := .init
  glue := by simp [empty, routeTableInit]
  stored := rfl
  info := by simp
  linked := trivial
  count := rfl
  live := by simp
  cur_live := by simp
  lock := by simp [empty]

section Rep

variable {s : Db} {expired : Addr → Bool} {cur : Option Addr} {l as m bs : List Addr} {a : Addr}

/-- The LSAs ascend in the byte order of their keys. -/
theorem Rep.ascending (h : Rep s cur l) : l.Pairwise fun a b => lsaKey (s.key a) < lsaKey (s.key b) := by
  have hs := h.kept.stored_pairwise
  rw [h.stored, List.pairwise_map] at hs
  exact hs.imp fun h => nodeOf_lt_iff.mp h

theorem Rep.nodup (h : Rep s cur l) : l.Nodup := by
  refine h.ascending.imp fun {a b} hab => ?_
  rintro rfl
  exact absurd hab (List.lt_irrefl _)

/-- What is on the node of a key is the LSA of the list with this key. -/
theorem Rep.info_iff (h : Rep s cur l) {k : LsaKey} : s.table.info (nodeOf k) = some a ↔ a ∈ l ∧ s.key a = k := by
  constructor
  · intro hk
    have hmem : nodeOf k ∈ Table.stored s.table := h.kept.mem_stored.mpr (by simp [hk])
    rw [h.stored, List.mem_map] at hmem
    obtain ⟨b, hb, hbk⟩ := hmem
    have hkey := nodeOf_injective hbk
    have hb' := h.info b hb
    rw [hkey, hk, Option.some.injEq] at hb'
    exact ⟨hb' ▸ hb, hb' ▸ hkey⟩
  · rintro ⟨ha, rfl⟩
    exact h.info a ha

/-- On the nodes in between there is nothing. -/
theorem Rep.info_glue (h : Rep s cur l) {b : List Bool} (hb : b.length ≠ 80) : s.table.info b = none := by
  by_contra hne
  have hmem := h.kept.mem_stored.mpr hne
  rw [h.stored, List.mem_map] at hmem
  obtain ⟨a, -, rfl⟩ := hmem
  exact hb (length_nodeOf _)

/-- A change of the locks of the nodes is none of the database. -/
theorem Rep.setTable (h : Rep s cur l) {t : RouteTable Addr} (ht : Kept t) (htop : t.top = s.table.top)
    (hinfo : t.info = s.table.info) : Rep { s with table := t } cur l where
  kept := ht
  glue := by simpa only [htop] using h.glue
  stored := by rw [stored_congr h.kept ht hinfo]; exact h.stored
  info := by simpa only [hinfo] using h.info
  linked := h.linked
  count := h.count
  live := h.live
  cur_live := h.cur_live
  lock := h.lock

theorem Rep.lookup (h : Rep s cur l) (k : LsaKey) :
    Rep (lsdbLookup s k).1 cur l ∧ (lsdbLookup s k).2 = s.table.info (nodeOf k) := by
  rw [lsdbLookup, h.kept.routeNodeLookup]
  by_cases hk : s.table.info (nodeOf k) = none
  · rw [if_pos hk]
    exact ⟨h, hk.symm⟩
  · rw [if_neg hk]
    exact ⟨h.setTable (h.kept.lock _) rfl rfl, rfl⟩

/-- A node found by a loop holds the LSA it is for, and is as locked as before. -/
theorem takeInfo_eq (hkept : Kept s.table) {o : Option Addr}
    (ho : ∀ a ∈ o, s.table.info (nodeOf (s.key a)) = some a) :
    takeInfo s (s.table.lockNode? (o.map fun a => nodeOf (s.key a)), o.map fun a => nodeOf (s.key a)) =
      some (s, o) := by
  cases o with
  | none => rfl
  | some a =>
      have ha := ho a rfl
      have hmem := hkept.mem_of_info (b := nodeOf (s.key a)) (by simp [ha])
      simp [takeInfo, hkept.unlock_lock hmem, ha]

@[simp]
theorem holders_none : holders l none a = if a ∈ l then 1 else 0 := by
  simp [holders]

/-- A loop that stands nowhere comes to an LSA of the database. -/
theorem Rep.lsaLock? (h : Rep s none l) {o : Option Addr} (ho : ∀ a ∈ o, a ∈ l) :
    ∃ s', lsaLock? s o = some s' ∧ Rep s' o l ∧ s'.next = s.next ∧ s'.key = s.key ∧ s'.table = s.table := by
  cases o with
  | none => exact ⟨s, rfl, h, rfl, rfl, rfl⟩
  | some a =>
      have hlive := h.live a (ho a rfl)
      refine ⟨s.incLock a, by simp [LsdbTree.lsaLock?, lsaLock, hlive], ?_, rfl, rfl, rfl⟩
      refine ⟨h.kept, h.glue, h.stored, h.info, h.linked, h.count, h.live, by simpa [Db.incLock] using hlive,
        fun c hc => ?_⟩
      by_cases hca : c = a
      · subst hca
        simp [Db.incLock, h.lock c hlive, holders]
      · have hac : ¬ some a = some c := by simpa using Ne.symm hca
        simp only [Db.incLock, Function.update_of_ne hca]
        simp [h.lock c hc, holders, hac]

/-- An LSA that is still held after it is unlocked stays, one that is not goes. -/
theorem decLock_live {n : UInt8} (hn : s.lock a - 1 = n) {c : Addr} (hc : c ≠ a ∨ n ≠ 0) :
    (s.decLock a).live c = s.live c := by
  by_cases hz : n = 0
  · simp [Db.decLock, hn, hz, Function.update_of_ne (hc.resolve_right fun h => h hz)]
  · simp [Db.decLock, hn, hz]

/-- A loop leaves the LSA it stands at, which is freed if it is not in the database any more. -/
theorem Rep.lsaUnlock (h : Rep s (some a) l) :
    ∃ s', lsaUnlock s a = some s' ∧ Rep s' none l ∧ s'.next = s.next ∧ s'.key = s.key ∧ s'.table = s.table := by
  have hlive := h.cur_live a rfl
  have hlock : s.lock a = (if a ∈ l then 1 else 0) + 1 := by simp [h.lock a hlive, holders]
  have hpos : 0 < s.lock a := by
    rw [hlock]
    split <;> decide
  have hsub : s.lock a - 1 = if a ∈ l then 1 else 0 := by
    rw [hlock]
    simp
  refine ⟨s.decLock a, by simp [LsdbTree.lsaUnlock, hlive, hpos], ?_, rfl, rfl, rfl⟩
  refine ⟨h.kept, h.glue, h.stored, h.info, h.linked, h.count, fun c hc => ?_, by simp, fun c hc => ?_⟩
  · have hca : c ≠ a ∨ (if a ∈ l then (1 : UInt8) else 0) ≠ 0 := by
      by_cases hca : c = a
      · exact .inr (by simp [← hca, hc])
      · exact .inl hca
    rw [decLock_live hsub hca]
    exact h.live c hc
  · by_cases hca : c = a
    · subst hca
      simp only [Db.decLock, Function.update_self, hsub, holders_none]
    · rw [decLock_live hsub (.inl hca)] at hc
      have hac : ¬ some a = some c := by simpa using Ne.symm hca
      simp only [Db.decLock, Function.update_of_ne hca]
      simp [h.lock c hc, holders, hac]

theorem Rep.lsdbHead (h : Rep s none l) :
    ∃ s', lsdbHead s = some (s', l.head?) ∧ Rep s' l.head? l ∧ s'.key = s.key ∧ s'.table = s.table := by
  have hroot : s.table.top.root? = s.table.top.nodes.head? := (Radix.head?_nodes _).symm
  have hhead : ∀ a ∈ l.head?, a ∈ l := fun a ha => List.mem_of_mem_head? ha
  obtain ⟨s', hlock, hrep, -, hkey, htable⟩ := h.lsaLock? hhead
  refine ⟨s', ?_, hrep, hkey, htable⟩
  have hskip : skipToInfo (s.table.lockNode? s.table.top.root?) s.table.top.root? =
      some (s.table.lockNode? (l.head?.map fun a => nodeOf (s.key a)), l.head?.map fun a => nodeOf (s.key a)) := by
    have hst : (Table.stored s.table).head? = l.head?.map fun a => nodeOf (s.key a) := by rw [h.stored, List.head?_map]
    rw [← hst, Table.stored, List.head?_filter]
    cases hn : s.table.top.nodes with
    | nil => simp [hroot, hn, skipToInfo]
    | cons b ys =>
        rw [hroot, hn]
        exact h.kept.skipToInfo (show s.table.top.nodes = [] ++ b :: ys from hn)
  have htake := takeInfo_eq h.kept fun a ha => h.info a (hhead a ha)
  simp [LsdbTree.lsdbHead, routeTop, hskip, htake, hlock]

theorem Rep.lsdbNext (h : Rep s (some a) l) (hnext : ∀ c ∈ s.next a, c ∈ l) :
    ∃ s', lsdbNext s a = some (s', s.next a) ∧ Rep s' (s.next a) l ∧ s'.next = s.next ∧ s'.key = s.key ∧
      s'.table = s.table := by
  obtain ⟨s₁, hun, hrep₁, hn₁, hk₁, ht₁⟩ := h.lsaUnlock
  obtain ⟨s₂, hlock, hrep₂, hn₂, hk₂, ht₂⟩ := hrep₁.lsaLock? hnext
  refine ⟨s₂, ?_, hrep₂, hn₂.trans hn₁, hk₂.trans hk₁, ht₂.trans ht₁⟩
  simp [LsdbTree.lsdbNext, hun, hlock]

/-- An LSA of the database has its place in the list. -/
theorem Rep.remove (h : Rep s cur (as ++ a :: bs)) :
    ∃ s', lsdbRemove s a = some s' ∧ Rep s' cur (as ++ bs) ∧ s'.next a = s.next a ∧ s'.key = s.key ∧
      s'.table.top = s.table.top := by
  have ha : a ∈ as ++ a :: bs := by simp
  have hnd := h.nodup
  have hna : a ∉ as ++ bs := (List.nodup_cons.mp (List.perm_middle.nodup_iff.mp hnd)).1
  obtain ⟨hprev, hnext⟩ := h.linked.neighbours
  have hlive := h.live a ha
  have hinfo := h.info a ha
  have hne : s.table.info (nodeOf (s.key a)) ≠ none := by simp [hinfo]
  have hmem := h.kept.mem_of_info hne
  have hlook : routeNodeLookup s.table (nodeOf (s.key a)) =
      (routeLockNode s.table (nodeOf (s.key a)), some (nodeOf (s.key a))) := by
    rw [h.kept.routeNodeLookup, if_neg hne]
  have hpl : ∀ c ∈ as.getLast?, s.live c = true := fun c hc => h.live c (by simp [List.mem_of_getLast? hc])
  have hnl : ∀ c ∈ bs.head?, s.live c = true := fun c hc => h.live c (by simp [List.mem_of_mem_head? hc])
  -- the lock of the lookup goes, that of the LSA stays: the node is kept
  have hkept : Kept ((routeLockNode s.table (nodeOf (s.key a))).setInfo (nodeOf (s.key a)) none) :=
    (h.kept.lock _).setInfo hmem (by simp [routeLockNode])
  have hone : 1 < ((routeLockNode s.table (nodeOf (s.key a))).setInfo (nodeOf (s.key a)) none).lock
      (nodeOf (s.key a)) := by
    have := h.kept.pos_of_info hne
    simp only [RouteTable.setInfo, routeLockNode, Function.update_self]
    omega
  obtain ⟨t, ht, hkt, htop, htinfo, -⟩ := hkept.unlock hone
  have hinfo' : t.info = Function.update s.table.info (nodeOf (s.key a)) none := htinfo
  have hlock : s.lock a = 1 + if cur = some a then 1 else 0 := by simp [h.lock a hlive, holders]
  have hpos : 0 < s.lock a := by
    rw [hlock]
    split <;> decide
  have hsub : s.lock a - 1 = if cur = some a then 1 else 0 := by
    rw [hlock, UInt8.add_comm]
    simp
  have hnext' : updateAt s.next as.getLast? bs.head? a = bs.head? := by
    rw [← hnext]
    exact updateAt_of_ne (getLast?_ne_of_not_mem fun hm => hna (by simp [hm]))
  have hmem' : ∀ c, c ∈ as ++ bs → c ∈ as ++ a :: bs := by
    intro c
    simp only [List.mem_append, List.mem_cons]
    tauto
  have hkeyne : ∀ c ∈ as ++ bs, nodeOf (s.key c) ≠ nodeOf (s.key a) := by
    intro c hc hkey
    have hc' := h.info c (hmem' c hc)
    rw [hkey, hinfo, Option.some.injEq] at hc'
    exact hna (hc' ▸ hc)
  let unlinked (t : RouteTable Addr) : Db := { s with
    table := t
    next := updateAt s.next as.getLast? bs.head?
    prev := updateAt s.prev bs.head? as.getLast?
    count := s.count - 1 }
  have hun : ∀ t, LsdbTree.lsaUnlock (unlinked t) a = some ((unlinked t).decLock a) :=
    fun t => if_pos ⟨hlive, hpos⟩
  refine ⟨(unlinked t).decLock a, ?_, ?_, hnext'.trans hnext.symm, rfl, htop⟩
  · simp only [lsdbRemove, hlook]
    rw [if_pos ⟨hlive, hinfo⟩, hprev, hnext]
    simp only [setNext, setPrev]
    rw [if_pos hpl]
    simp only [Option.bind_eq_bind, Option.bind_some, hnext', hprev]
    rw [if_pos hnl, Option.bind_some, hun, Option.bind_some]
    simp only [Db.decLock, unlinked, ht, Option.bind_some]
    rfl
  · have hlive' : ∀ c, c ≠ a ∨ (if cur = some a then (1 : UInt8) else 0) ≠ 0 →
        ((unlinked t).decLock a).live c = s.live c := fun c hc => decLock_live (s := unlinked t) hsub hc
    refine ⟨hkt, ?_, ?_, fun c hc => ?_, h.linked.remove hnd, ?_, fun c hc => ?_, fun c hc => ?_, fun c hc => ?_⟩
    · simpa [Db.decLock, unlinked, htop, RouteTable.setInfo] using h.glue
    · refine hkt.stored_pairwise.eq_of_mem_iff ?_ fun b => ?_
      · have hs := h.kept.stored_pairwise
        rw [h.stored] at hs
        exact hs.sublist (List.Sublist.map _ (by simp))
      · rw [hkt.mem_stored, hinfo']
        by_cases hb : b = nodeOf (s.key a)
        · subst hb
          simp only [Function.update_self, ne_eq, not_true_eq_false, false_iff, List.mem_map, not_exists, not_and]
          exact hkeyne
        · rw [Function.update_of_ne hb, ← h.kept.mem_stored, h.stored]
          simp [Db.decLock, unlinked, hb]
    · exact (congrFun hinfo' _).trans ((Function.update_of_ne (hkeyne c hc) _ _).trans (h.info c (hmem' c hc)))
    · simp [Db.decLock, unlinked, h.count]
    · rw [hlive' c (.inl fun hca => hna (hca ▸ hc))]
      exact h.live c (hmem' c hc)
    · have hcur : c ≠ a ∨ (if cur = some a then (1 : UInt8) else 0) ≠ 0 := by
        by_cases hca : c = a
        · exact .inr (by simp [← hca, Option.mem_def.mp hc])
        · exact .inl hca
      rw [hlive' c hcur]
      exact h.cur_live c hc
    · by_cases hca : c = a
      · subst hca
        simp [Db.decLock, unlinked, hsub, holders, hna]
      · rw [hlive' c (.inl hca)] at hc
        simp only [Db.decLock, unlinked, Function.update_of_ne hca, h.lock c hc, holders]
        simp [hca]

/-- The place of a key in the tree and in the list. -/
theorem Rep.place (h : Rep s cur l) (k : LsaKey) :
    ∃ xs ys as m bs, (routeNodeGet s.table (nodeOf k)).top.nodes = xs ++ nodeOf k :: ys ∧ l = as ++ (m ++ bs) ∧
      (xs.filter fun c => (s.table.info c).isSome) = as.map (fun a => nodeOf (s.key a)) ∧
      (ys.filter fun c => (s.table.info c).isSome) = bs.map (fun a => nodeOf (s.key a)) ∧
      (s.table.info (nodeOf k)).toList = m := by
  have hinfo := h.kept.routeNodeGet_info (k := nodeOf k)
  have hkept := h.kept.routeNodeGet (nodeOf k)
  obtain ⟨xs, ys, hnodes⟩ := List.append_of_mem (routeNodeGet_mem (t := s.table) (k := nodeOf k))
  have hsplit := stored_split hnodes
  rw [stored_congr h.kept hkept hinfo, h.stored, hinfo] at hsplit
  obtain ⟨as, rest, rfl, has, hrest⟩ := List.map_eq_append_iff.mp hsplit
  obtain ⟨m, bs, rfl, hms, hbs⟩ := List.map_eq_append_iff.mp hrest
  refine ⟨xs, ys, as, m, bs, hnodes, rfl, has.symm, hbs.symm, ?_⟩
  cases hk : s.table.info (nodeOf k) with
  | none =>
      rw [hk] at hms
      simpa using hms.symm
  | some o =>
      rw [hk] at hms
      obtain ⟨c, rfl, hc⟩ : ∃ c, m = [c] ∧ nodeOf (s.key c) = nodeOf k := by
        simpa [List.map_eq_singleton_iff] using hms
      have hc' := h.info c (by simp)
      rw [hc, hk, Option.some.injEq] at hc'
      simp [hc']

/-- The new LSA is not among the others. -/
theorem Rep.not_mem_others (h : Rep s cur (as ++ (m ++ bs)))
    (hms : (s.table.info (nodeOf (s.key a))).toList = m) : a ∉ as ++ bs := by
  intro hmem
  have ha : a ∈ as ++ (m ++ bs) := by
    simp only [List.mem_append] at hmem ⊢
    tauto
  rw [h.info a ha] at hms
  subst hms
  have hnd := h.nodup
  rw [Option.toList_some, List.singleton_append] at hnd
  exact (List.nodup_cons.mp (List.perm_middle.nodup_iff.mp hnd)).1 hmem

/-- The tree with a new LSA. -/
def treeAdd (s : Db) (a : Addr) : RouteTable Addr :=
  (routeNodeGet s.table (nodeOf (s.key a))).setInfo (nodeOf (s.key a)) (some a)

/-- The database with a new LSA between two parts of its list. -/
def listAdd (s : Db) (as : List Addr) (a : Addr) (bs : List Addr) : Db :=
  { s.incLock a with
    table := treeAdd s a
    next := Function.update (updateAt s.next as.getLast? (some a)) a bs.head?
    prev := Function.update (updateAt s.prev bs.head? (some a)) a as.getLast? }

theorem Rep.kept_treeAdd (h : Rep s cur l) : Kept (treeAdd s a) :=
  (h.kept.routeNodeGet _).setInfo routeNodeGet_mem routeNodeGet_lock_pos

theorem Rep.treeAdd_info (h : Rep s cur l) :
    (treeAdd s a).info = Function.update s.table.info (nodeOf (s.key a)) (some a) := by
  simp [treeAdd, RouteTable.setInfo, h.kept.routeNodeGet_info]

/-- What the tree and the list have to do with each other holds with the new LSA as well. -/
theorem Rep.listAdd (h : Rep s none (as ++ (m ++ bs))) {xs ys : List (List Bool)}
    (hnodes : (routeNodeGet s.table (nodeOf (s.key a))).top.nodes = xs ++ nodeOf (s.key a) :: ys)
    (hxs : (xs.filter fun c => (s.table.info c).isSome) = as.map fun a => nodeOf (s.key a))
    (hys : (ys.filter fun c => (s.table.info c).isSome) = bs.map fun a => nodeOf (s.key a))
    (hms : (s.table.info (nodeOf (s.key a))).toList = m) :
    let s' := LsdbTree.listAdd s as a bs
    Kept s'.table ∧ (∀ b ∈ s'.table.top.nodes, b.length ≠ 80 → s'.table.top.Full b) ∧
      Table.stored s'.table = ((as ++ a :: bs).map fun a => nodeOf (s'.key a)) ∧
      (∀ c ∈ as ++ a :: bs, s'.table.info (nodeOf (s'.key c)) = some c) ∧
      Linked s'.next s'.prev (as ++ a :: bs) := by
  have hget := h.kept.routeNodeGet (nodeOf (s.key a))
  have hinfo := h.kept.routeNodeGet_info (k := nodeOf (s.key a))
  have hna := h.not_mem_others hms
  have hnd : (as ++ a :: bs).Nodup := by
    rw [List.perm_middle.nodup_iff, List.nodup_cons]
    refine ⟨hna, h.nodup.sublist ?_⟩
    simp
  refine ⟨h.kept_treeAdd, fun b hb hlen => ?_, ?_, fun c hc => ?_, ?_⟩
  · obtain hold | hk | hfull := Radix.mem_insert hb
    · exact Radix.full_insert (h.glue b hold hlen)
    · exact absurd (hk ▸ length_nodeOf _) hlen
    · exact hfull
  · obtain ⟨hx, hy⟩ := hget.stored_setInfo (i := some a) hnodes
    have hsplit := stored_split (t := treeAdd s a) hnodes
    rw [hinfo] at hx hy
    rw [treeAdd, hx, hy, hxs, hys] at hsplit
    simpa [LsdbTree.listAdd, treeAdd, RouteTable.setInfo, Db.incLock] using hsplit
  · simp only [LsdbTree.listAdd, h.treeAdd_info, Db.incLock]
    obtain rfl | hc := List.mem_cons.mp (List.perm_middle.mem_iff.mp hc)
    · simp
    · have hcmem : c ∈ as ++ (m ++ bs) := by
        simp only [List.mem_append] at hc ⊢
        tauto
      have hne : nodeOf (s.key c) ≠ nodeOf (s.key a) := by
        intro hkey
        have hcinfo := h.info c hcmem
        rw [hkey] at hcinfo
        rw [hcinfo] at hms
        subst hms
        have hdup := h.nodup
        rw [Option.toList_some, List.singleton_append] at hdup
        exact (List.nodup_cons.mp (List.perm_middle.nodup_iff.mp hdup)).1 hc
      rw [Function.update_of_ne hne]
      exact h.info c hcmem
  · exact Linked.put (l := m) (by simpa using h.linked) hnd

/-- The neighbours of a new LSA, as the loops over the tree find them. -/
theorem Rep.neighbours (h : Rep s none (as ++ bs)) {xs ys : List (List Bool)}
    (hnodes : (treeAdd s a).top.nodes = xs ++ nodeOf (s.key a) :: ys)
    (hxs : (xs.filter fun c => (s.table.info c).isSome) = as.map fun a => nodeOf (s.key a))
    (hys : (ys.filter fun c => (s.table.info c).isSome) = bs.map fun a => nodeOf (s.key a)) :
    nextInfo (treeAdd s a).top.nodes.length (routeLockNode (treeAdd s a) (nodeOf (s.key a))) (nodeOf (s.key a)) =
        some ((treeAdd s a).lockNode? (bs.head?.map fun a => nodeOf (s.key a)),
          bs.head?.map fun a => nodeOf (s.key a)) ∧
      prevInfo (treeAdd s a).top.nodes.length (routeLockNode (treeAdd s a) (nodeOf (s.key a))) (nodeOf (s.key a)) =
        some ((treeAdd s a).lockNode? (as.getLast?.map fun a => nodeOf (s.key a)),
          as.getLast?.map fun a => nodeOf (s.key a)) := by
  have hkept : Kept (treeAdd s a) := h.kept_treeAdd
  have hget := h.kept.routeNodeGet (nodeOf (s.key a))
  obtain ⟨hx, hy⟩ := hget.stored_setInfo (i := some a) hnodes
  rw [h.kept.routeNodeGet_info] at hx hy
  constructor
  · have hlen : ys.length < (treeAdd s a).top.nodes.length := by rw [hnodes, List.length_append, List.length_cons]; omega
    rw [hkept.nextInfo hlen hnodes, ← List.head?_filter]
    rw [show (ys.filter fun c => ((treeAdd s a).info c).isSome) = _ from hy, hys, List.head?_map]
  · have hlen : xs.length < (treeAdd s a).top.nodes.length := by rw [hnodes, List.length_append, List.length_cons]; omega
    rw [hkept.prevInfo hlen hnodes, ← List.head?_filter, List.filter_reverse, List.head?_reverse]
    rw [show (xs.filter fun c => ((treeAdd s a).info c).isSome) = _ from hx, hxs, List.getLast?_map]

/-- An LSA with a new key. -/
theorem Rep.add_new (h : Rep s none (as ++ bs)) {xs ys : List (List Bool)} (hlive : s.live a = true)
    (hnodes : (treeAdd s a).top.nodes = xs ++ nodeOf (s.key a) :: ys)
    (hxs : (xs.filter fun c => (s.table.info c).isSome) = as.map fun a => nodeOf (s.key a))
    (hys : (ys.filter fun c => (s.table.info c).isSome) = bs.map fun a => nodeOf (s.key a))
    (hnone : s.table.info (nodeOf (s.key a)) = none) :
    lsdbAdd s expired a = some { LsdbTree.listAdd s as a bs with count := s.count + 1 } ∧
      Rep { LsdbTree.listAdd s as a bs with count := s.count + 1 } none (as ++ a :: bs) := by
  have hna : a ∉ as ++ bs := h.not_mem_others (m := []) (by simp [hnone])
  have hnas : as.getLast? ≠ some a := getLast?_ne_of_not_mem fun hm => hna (by simp [hm])
  obtain ⟨hkept, hglue, hstored, hinfo, hlinked⟩ := Rep.listAdd (m := []) h hnodes hxs hys (by simp [hnone])
  have hlock : s.lock a = 0 := by
    rw [h.lock a hlive, holders_none, if_neg hna]
  constructor
  · obtain ⟨hnext, hprev⟩ := h.neighbours hnodes hxs hys
    have hbs : ∀ c ∈ bs.head?, c ∈ bs := fun c hc => List.mem_of_mem_head? hc
    have has : ∀ c ∈ as.getLast?, c ∈ as := fun c hc => List.mem_of_getLast? hc
    let s₀ : Db := { s with table := treeAdd s a }.incLock a
    let s₁ : Db := { s₀ with
      next := Function.update s.next a bs.head?
      prev := updateAt s.prev bs.head? (some a) }
    have htake : takeInfo s₀ ((treeAdd s a).lockNode? (bs.head?.map fun a => nodeOf (s.key a)),
        bs.head?.map fun a => nodeOf (s.key a)) = some (s₀, bs.head?) :=
      takeInfo_eq (s := s₀) hkept fun c hc => hinfo c (by simp [hbs c hc])
    have htake' : takeInfo s₁ ((treeAdd s a).lockNode? (as.getLast?.map fun a => nodeOf (s.key a)),
        as.getLast?.map fun a => nodeOf (s.key a)) = some (s₁, as.getLast?) :=
      takeInfo_eq (s := s₁) hkept fun c hc => hinfo c (by simp [has c hc])
    have hself : ∀ c ∈ some a, s.live c = true := by simpa using hlive
    have hnl : ∀ c ∈ bs.head?, s.live c = true := fun c hc => h.live c (by simp [hbs c hc])
    have hpl : ∀ c ∈ as.getLast?, s.live c = true := fun c hc => h.live c (by simp [has c hc])
    have hlockeq : lsaLock { s with table := treeAdd s a } a = some s₀ := if_pos hlive
    have hstep₁ : setNext s₀ (some a) bs.head? = some { s₀ with next := Function.update s.next a bs.head? } :=
      if_pos hself
    have hstep₂ : setPrev { s₀ with next := Function.update s.next a bs.head? } bs.head? (some a) = some s₁ :=
      if_pos hnl
    have hstep₃ : setPrev s₁ (some a) as.getLast? =
        some { s₁ with prev := Function.update (updateAt s.prev bs.head? (some a)) a as.getLast? } := if_pos hself
    have hstep₄ : setNext { s₁ with prev := Function.update (updateAt s.prev bs.head? (some a)) a as.getLast? }
        as.getLast? (some a) = some (LsdbTree.listAdd s as a bs) := by
      refine (if_pos hpl).trans ?_
      simp only [s₁, s₀, LsdbTree.listAdd, Db.incLock, updateAt_update_comm hnas]
    have hold : (routeNodeGet s.table (nodeOf (s.key a))).info (nodeOf (s.key a)) = none := by
      rw [h.kept.routeNodeGet_info, hnone]
    have htree : (routeNodeGet s.table (nodeOf (s.key a))).setInfo (nodeOf (s.key a)) (some a) = treeAdd s a := rfl
    have hnext₀ : nextInfo s₀.table.top.nodes.length (routeLockNode s₀.table (nodeOf (s.key a))) (nodeOf (s.key a)) =
        _ := hnext
    have hprev₁ : prevInfo s₁.table.top.nodes.length (routeLockNode s₁.table (nodeOf (s.key a))) (nodeOf (s.key a)) =
        _ := hprev
    simp only [lsdbAdd, htree, hold, hlockeq, Option.bind_eq_bind, Option.bind_some, hnext₀, htake, hstep₁,
      hstep₂, hprev₁, htake', hstep₃, hstep₄]
    rfl
  · refine ⟨hkept, hglue, hstored, hinfo, hlinked, ?_, fun c hc => ?_, by simp, fun c hc => ?_⟩
    · simp [h.count]
      omega
    · obtain rfl | hc := List.mem_cons.mp (List.perm_middle.mem_iff.mp hc)
      · exact hlive
      · exact h.live c hc
    · by_cases hca : c = a
      · subst hca
        simp [LsdbTree.listAdd, Db.incLock, hlock]
      · have hc' := h.lock c hc
        simp only [LsdbTree.listAdd, Db.incLock, Function.update_of_ne hca, holders_none] at hc' ⊢
        simpa [hca] using hc'

/-- An LSA in the place of the one that has its key. -/
theorem Rep.add_old {o : Addr} (h : Rep s none (as ++ o :: bs)) {xs ys : List (List Bool)} (hlive : s.live a = true)
    (hnodes : (treeAdd s a).top.nodes = xs ++ nodeOf (s.key a) :: ys)
    (hxs : (xs.filter fun c => (s.table.info c).isSome) = as.map fun a => nodeOf (s.key a))
    (hys : (ys.filter fun c => (s.table.info c).isSome) = bs.map fun a => nodeOf (s.key a))
    (hsome : s.table.info (nodeOf (s.key a)) = some o) :
    lsdbAdd s expired a =
        (if Comparable s expired o a then some ((LsdbTree.listAdd s as a bs).decLock o) else none) ∧
      Rep ((LsdbTree.listAdd s as a bs).decLock o) none (as ++ a :: bs) := by
  have hna : a ∉ as ++ bs := h.not_mem_others (m := [o]) (by simp [hsome])
  have hno : o ∉ as ++ bs := (List.nodup_cons.mp (List.perm_middle.nodup_iff.mp h.nodup)).1
  have hnoa : as.getLast? ≠ some o := getLast?_ne_of_not_mem fun hm => hno (by simp [hm])
  have hnob : bs.head? ≠ some o := head?_ne_of_not_mem fun hm => hno (by simp [hm])
  obtain ⟨hkept, hglue, hstored, hinfo, hlinked⟩ := Rep.listAdd (m := [o]) h hnodes hxs hys (by simp [hsome])
  obtain ⟨hprev, hnext⟩ := h.linked.neighbours
  have hliveo : s.live o = true := h.live o (by simp)
  have hlocko : s.lock o = 1 := by
    rw [h.lock o hliveo, holders_none, if_pos (by simp)]
  -- the new LSA may be the old one
  have hlocka : a ≠ o → s.lock a = 0 := by
    intro hao
    have hmem : a ∉ as ++ o :: bs := by
      rw [List.perm_middle.mem_iff, List.mem_cons]
      exact fun hm => hm.elim hao hna
    rw [h.lock a hlive, holders_none, if_neg hmem]
  have hlock : (LsdbTree.listAdd s as a bs).lock o - 1 = if a = o then 1 else 0 := by
    by_cases hao : a = o
    · subst hao
      simp [LsdbTree.listAdd, Db.incLock, hlocko]
    · simp [LsdbTree.listAdd, Db.incLock, Function.update_of_ne (Ne.symm hao), hlocko, hao]
  have hpos : 0 < (LsdbTree.listAdd s as a bs).lock o := by
    by_cases hao : a = o
    · subst hao
      simp only [LsdbTree.listAdd, Db.incLock, Function.update_self, hlocko]
      decide
    · simp only [LsdbTree.listAdd, Db.incLock, Function.update_of_ne (Ne.symm hao), hlocko]
      decide
  constructor
  · have hself : ∀ c ∈ some a, s.live c = true := by simpa using hlive
    have hnl : ∀ c ∈ bs.head?, s.live c = true := fun c hc => h.live c (by simp [List.mem_of_mem_head? hc])
    have hpl : ∀ c ∈ as.getLast?, s.live c = true := fun c hc => h.live c (by simp [List.mem_of_getLast? hc])
    let s₀ : Db := { s with table := treeAdd s a }.incLock a
    let s₁ : Db := { s₀ with next := updateAt s.next as.getLast? (some a) }
    let s₂ : Db := { s₁ with prev := updateAt s.prev bs.head? (some a) }
    let s₃ : Db := { s₂ with next := Function.update (updateAt s.next as.getLast? (some a)) a bs.head? }
    have hlockeq : lsaLock { s with table := treeAdd s a } a = some s₀ := if_pos hlive
    have hnext₁ : s₁.next o = bs.head? := (updateAt_of_ne hnoa).trans hnext
    have hprev₃ : s₃.prev o = as.getLast? := (updateAt_of_ne hnob).trans hprev
    have hstep₁ : setNext s₀ (s₀.prev o) (some a) = some s₁ := by
      rw [show s₀.prev o = as.getLast? from hprev]
      exact if_pos hpl
    have hstep₂ : setPrev s₁ (s₁.next o) (some a) = some s₂ := by
      rw [hnext₁]
      exact if_pos hnl
    have hstep₃ : setNext s₂ (some a) (s₂.next o) = some s₃ := by
      rw [show s₂.next o = bs.head? from hnext₁]
      exact if_pos hself
    have hstep₄ : setPrev s₃ (some a) (s₃.prev o) = some (LsdbTree.listAdd s as a bs) := by
      rw [hprev₃]
      exact if_pos hself
    have hun : LsdbTree.lsaUnlock (LsdbTree.listAdd s as a bs) o =
        some ((LsdbTree.listAdd s as a bs).decLock o) := if_pos ⟨hliveo, hpos⟩
    have hold : (routeNodeGet s.table (nodeOf (s.key a))).info (nodeOf (s.key a)) = some o := by
      rw [h.kept.routeNodeGet_info, hsome]
    have htree : (routeNodeGet s.table (nodeOf (s.key a))).setInfo (nodeOf (s.key a)) (some a) = treeAdd s a := rfl
    have hcmp : Comparable (LsdbTree.listAdd s as a bs) expired o a ↔ Comparable s expired o a := Iff.rfl
    simp only [lsdbAdd, htree, hold, hlockeq, Option.bind_eq_bind, Option.bind_some, hstep₁, hstep₂, hstep₃, hstep₄,
      lsaIsChanged, hcmp]
    by_cases hc : Comparable s expired o a
    · rw [if_pos hc, if_pos hc, Option.bind_some, hun]
    · rw [if_neg hc, if_neg hc, Option.bind_none]
  · refine ⟨hkept, hglue, hstored, hinfo, hlinked, ?_, fun c hc => ?_, by simp, fun c hc => ?_⟩
    · have hcount := h.count
      simp only [List.length_append, List.length_cons] at hcount ⊢
      exact hcount
    · have hlivec : (LsdbTree.listAdd s as a bs).live c = true := by
        obtain rfl | hc := List.mem_cons.mp (List.perm_middle.mem_iff.mp hc)
        · exact hlive
        · exact h.live c (List.perm_middle.mem_iff.mpr (by simp [hc]))
      have hco : c ≠ o ∨ (if a = o then (1 : UInt8) else 0) ≠ 0 := by
        by_cases hao : a = o
        · exact .inr (by simp [hao])
        · refine .inl fun hco => ?_
          obtain hca | hc := List.mem_cons.mp (List.perm_middle.mem_iff.mp hc)
          · exact hao (hca ▸ hco)
          · exact hno (hco ▸ hc)
      rw [decLock_live hlock hco]
      exact hlivec
    · by_cases hco : c = o
      · subst hco
        simp only [Db.decLock, Function.update_self, hlock, holders_none]
        by_cases hac : a = c
        · simp [hac]
        · have hmem : c ∉ as ++ a :: bs := by
            rw [List.perm_middle.mem_iff, List.mem_cons]
            exact fun hm => hm.elim (Ne.symm hac) hno
          simp [hac, hmem]
      · rw [decLock_live hlock (.inl hco)] at hc
        simp only [Db.decLock, Function.update_of_ne hco, LsdbTree.listAdd, Db.incLock, holders_none]
        by_cases hca : c = a
        · subst hca
          simp [hlocka hco]
        · have hc' := h.lock c hc
          simp only [holders_none, List.mem_append, List.mem_cons, hco, false_or] at hc'
          simpa [Function.update_of_ne hca, hca] using hc'

/-- `ospf6_lsdb_add` puts an LSA in its place, if it can be compared with the one that is there. -/
theorem Rep.add (h : Rep s none l) (hlive : s.live a = true)
    (hcmp : ∀ o ∈ s.table.info (nodeOf (s.key a)), Comparable s expired o a) :
    ∃ s' l', lsdbAdd s expired a = some s' ∧ Rep s' none l' ∧ s'.key = s.key ∧
      ∀ c, c ∈ l' ↔ c = a ∨ c ∈ l ∧ s.key c ≠ s.key a := by
  obtain ⟨xs, ys, as, m, bs, hnodes, rfl, hxs, hys, hms⟩ := h.place (s.key a)
  have hna := h.not_mem_others hms
  cases hk : s.table.info (nodeOf (s.key a)) with
  | none =>
      obtain rfl : m = [] := by simpa [hk] using hms.symm
      obtain ⟨hadd, hrep⟩ := h.add_new hlive hnodes hxs hys hk
      refine ⟨_, _, hadd, hrep, rfl, fun c => ?_⟩
      have hkey : ∀ c ∈ as ++ bs, s.key c ≠ s.key a := by
        intro c hc hca
        have hinfo := h.info c hc
        rw [hca, hk] at hinfo
        exact absurd hinfo (by simp)
      rw [List.perm_middle.mem_iff, List.mem_cons]
      exact or_congr_right ⟨fun hc => ⟨hc, hkey c hc⟩, fun hc => hc.1⟩
  | some o =>
      obtain rfl : m = [o] := by simpa [hk] using hms.symm
      obtain ⟨hadd, hrep⟩ := Rep.add_old (by simpa using h) hlive hnodes hxs hys hk
      refine ⟨_, _, hadd.trans (if_pos (hcmp o hk)), hrep, rfl, fun c => ?_⟩
      have ho := (h.info_iff (k := s.key a)).mp hk
      have hkey : ∀ c ∈ as ++ ([o] ++ bs), s.key c = s.key a ↔ c = o := by
        intro c hc
        constructor
        · intro hca
          have hinfo := h.info c hc
          rw [hca, hk] at hinfo
          exact (Option.some.inj hinfo).symm
        · rintro rfl
          exact ho.2
      have hno : o ∉ as ++ bs := (List.nodup_cons.mp (List.perm_middle.nodup_iff.mp (by simpa using h.nodup))).1
      rw [List.perm_middle.mem_iff, List.mem_cons]
      refine or_congr_right ⟨fun hc => ?_, fun ⟨hc, hca⟩ => ?_⟩
      · have hc' : c ∈ as ++ ([o] ++ bs) := by
          simp only [List.mem_append] at hc ⊢
          tauto
        exact ⟨hc', fun hca => hno ((hkey c hc').mp hca ▸ hc)⟩
      · have hco : c ≠ o := fun hco => hca ((hkey c hc).mpr hco)
        simpa [hco] using hc

theorem Rep.add_eq_none (h : Rep s none l) (hlive : s.live a = true) {o : Addr}
    (ho : s.table.info (nodeOf (s.key a)) = some o) (hcmp : ¬ Comparable s expired o a) :
    lsdbAdd s expired a = none := by
  obtain ⟨xs, ys, as, m, bs, hnodes, rfl, hxs, hys, hms⟩ := h.place (s.key a)
  obtain rfl : m = [o] := by simpa [ho] using hms.symm
  exact (Rep.add_old (by simpa using h) hlive hnodes hxs hys ho).1.trans (if_neg hcmp)

/-! ### Loops -/

/-- A loop that removes some of the LSAs it comes to sees all that were there when it began. -/
theorem Rep.loop (drop : Addr → Bool) {rest d : List Addr} {n : Nat} (h : Rep s rest.head? (d ++ rest))
    (hn : rest.length ≤ n) :
    ∃ s', loopFrom (fun s a => if drop a then lsdbRemove s a else some s) LsdbTree.lsdbNext n s rest.head? =
        some (s', rest) ∧
      Rep s' none (d ++ rest.filter fun a => !drop a) ∧ s'.key = s.key := by
  induction rest generalizing s d n with
  | nil => exact ⟨s, by simp [loopFrom], h, rfl⟩
  | cons a rest ih =>
      obtain ⟨n, rfl⟩ : ∃ m, n = m + 1 := ⟨n - 1, by simp at hn; omega⟩
      have hnext : s.next a = rest.head? := h.linked.neighbours.2
      have hrest : ∀ c ∈ rest.head?, c ∈ rest := fun c hc => List.mem_of_mem_head? hc
      by_cases hdrop : drop a = true
      · obtain ⟨s₁, hrem, hrep₁, hnext₁, hkey₁, -⟩ := h.remove
        rw [hnext] at hnext₁
        obtain ⟨s₂, hstep, hrep₂, -, hkey₂, -⟩ := hrep₁.lsdbNext fun c hc => by
          rw [hnext₁] at hc
          simp [hrest c hc]
        rw [hnext₁] at hstep hrep₂
        obtain ⟨s', hloop, hrep', hkey'⟩ := ih (n := n) hrep₂ (by simpa using hn)
        refine ⟨s', ?_, by simpa [hdrop] using hrep', by rw [hkey', hkey₂, hkey₁]⟩
        simp [loopFrom, hdrop, hrem, hstep, hloop]
      · obtain ⟨s₂, hstep, hrep₂, -, hkey₂, -⟩ := h.lsdbNext fun c hc => by
          rw [hnext] at hc
          simp [hrest c hc]
        rw [hnext] at hstep hrep₂
        obtain ⟨s', hloop, hrep', hkey'⟩ := ih (d := d ++ [a]) (n := n) (by simpa using hrep₂) (by simpa using hn)
        refine ⟨s', ?_, by simpa [hdrop] using hrep', by rw [hkey', hkey₂]⟩
        simp [loopFrom, hdrop, hstep, hloop]

/-- There are at least as many nodes as LSAs. -/
theorem Rep.length_le (h : Rep s cur l) : l.length ≤ s.table.top.nodes.length := by
  have hlen := congrArg List.length h.stored
  rw [List.length_map] at hlen
  rw [← hlen]
  exact List.length_filter_le _ _

theorem Rep.sweep (h : Rep s none l) (drop : Addr → Bool) :
    ∃ s', sweep drop s = some (s', l) ∧ Rep s' none (l.filter fun a => !drop a) ∧ s'.key = s.key := by
  obtain ⟨s₁, hhead, hrep₁, hkey₁, htable₁⟩ := h.lsdbHead
  obtain ⟨s', hloop, hrep', hkey'⟩ := Rep.loop (d := []) drop (by simpa using hrep₁) h.length_le
  refine ⟨s', ?_, by simpa using hrep', hkey'.trans hkey₁⟩
  simp [LsdbTree.sweep, hhead, hloop]

theorem incLock_decLock_comm {c : Addr} (hca : c ≠ a) : (s.incLock c).decLock a = (s.decLock a).incLock c := by
  simp only [Db.incLock, Db.decLock, Function.update_of_ne hca, Function.update_of_ne (Ne.symm hca)]
  rw [Function.update_comm hca]

theorem Rep.rangeNext (h : Rep s (some a) l) {same : LsaKey → Bool} (hnext : ∀ c ∈ s.next a, c ∈ l ∧ c ≠ a) :
    ∃ s', lsdbRangeNext same s a = some (s', (s.next a).filter fun c => same (s.key c)) ∧
      Rep s' ((s.next a).filter fun c => same (s.key c)) l ∧ s'.next = s.next ∧ s'.key = s.key := by
  have hlive := h.cur_live a rfl
  have hnl : ∀ c ∈ s.next a, s.live c = true := fun c hc => h.live c (hnext c hc).1
  have hsub : ∀ c ∈ (s.next a).filter (fun c => same (s.key c)), c ∈ s.next a := by
    intro c hc
    exact (Option.filter_eq_some_iff.mp hc).1
  obtain ⟨s₁, hun, hrep₁, hn₁, hk₁, -⟩ := h.lsaUnlock
  obtain ⟨s₂, hlock, hrep₂, hn₂, hk₂, -⟩ := hrep₁.lsaLock? fun c hc => (hnext c (hsub c hc)).1
  refine ⟨s₂, ?_, hrep₂, hn₂.trans hn₁, hk₂.trans hk₁⟩
  -- the next one is locked before this one is unlocked
  have hswap : ((LsdbTree.lsaLock? s ((s.next a).filter fun c => same (s.key c))).bind
      fun s => LsdbTree.lsaUnlock s a) = some s₂ := by
    cases ho : (s.next a).filter fun c => same (s.key c) with
    | none =>
        rw [ho] at hlock
        simpa [LsdbTree.lsaLock?, hun] using hlock
    | some c =>
        obtain ⟨hcl, hca⟩ := hnext c (hsub c (by simp [ho]))
        have hcond : s.live a = true ∧ 0 < s.lock a := by
          by_contra hcon
          simp [LsdbTree.lsaUnlock, hcon] at hun
        have hdec : s₁ = s.decLock a := by
          rw [LsdbTree.lsaUnlock, if_pos hcond] at hun
          exact (Option.some.inj hun).symm
        have hinc : s₂ = s₁.incLock c := by
          rw [ho] at hlock
          simp only [LsdbTree.lsaLock?, lsaLock, hrep₁.live c hcl, if_true] at hlock
          exact (Option.some.inj hlock).symm
        have hcond' : (s.incLock c).live a = true ∧ 0 < (s.incLock c).lock a := by
          simpa [Db.incLock, Function.update_of_ne (Ne.symm hca)] using hcond
        simp only [LsdbTree.lsaLock?, lsaLock, h.live c hcl, if_true, Option.bind_some, LsdbTree.lsaUnlock]
        rw [if_pos hcond', hinc, hdec, incLock_decLock_comm hca]
  rw [lsdbRangeNext, if_pos ⟨hlive, hnl⟩]
  cases hl : LsdbTree.lsaLock? s ((s.next a).filter fun c => same (s.key c)) with
  | none => simp [hl] at hswap
  | some s₃ =>
      rw [hl, Option.bind_some] at hswap
      simp only [hl, hswap, Option.bind_eq_bind, Option.bind_some, Option.pure_def]

/-- A loop over a range sees what of the range is still to come. -/
theorem Rep.rangeLoop {same : LsaKey → Bool} {rest d : List Addr} {n : Nat} (h : Rep s rest.head? l)
    (hl : l = d ++ (rest ++ bs)) (hrest : ∀ c ∈ rest, same (s.key c) = true)
    (hbs : ∀ c ∈ bs, same (s.key c) = false) (hn : rest.length ≤ n) :
    ∃ s', loopFrom (fun s _ => some s) (lsdbRangeNext same) n s rest.head? = some (s', rest) ∧ Rep s' none l ∧
      s'.key = s.key := by
  induction rest generalizing s d n with
  | nil => exact ⟨s, by simp [loopFrom], h, rfl⟩
  | cons a rest ih =>
      obtain ⟨n, rfl⟩ : ∃ m, n = m + 1 := ⟨n - 1, by simp at hn; omega⟩
      have hl' : l = d ++ a :: (rest ++ bs) := by simp [hl]
      have hnext : s.next a = (rest ++ bs).head? := by
        have hlinked := h.linked
        rw [hl'] at hlinked
        exact hlinked.neighbours.2
      have hin : ∀ c ∈ s.next a, c ∈ l ∧ c ≠ a := by
        intro c hc
        rw [hnext] at hc
        have hc := List.mem_of_mem_head? hc
        have hnd := h.nodup
        rw [hl', List.nodup_append] at hnd
        exact ⟨by rw [hl']; simp [List.mem_append.mp hc], fun hca => (List.nodup_cons.mp hnd.2.1).1 (hca ▸ hc)⟩
      have hfilter : (s.next a).filter (fun c => same (s.key c)) = rest.head? := by
        rw [hnext]
        cases rest with
        | nil =>
            cases bs with
            | nil => rfl
            | cons b bs => simp [Option.filter, hbs b (by simp)]
        | cons b rest => simp [Option.filter, hrest b (by simp)]
      obtain ⟨s₁, hstep, hrep₁, -, hkey₁⟩ := h.rangeNext hin
      rw [hfilter] at hstep hrep₁
      obtain ⟨s', hloop, hrep', hkey'⟩ := ih (d := d ++ [a]) (n := n) hrep₁ (by simp [hl])
        (fun c hc => by rw [hkey₁]; exact hrest c (by simp [hc])) (fun c hc => by rw [hkey₁]; exact hbs c hc)
        (by simpa using hn)
      refine ⟨s', ?_, hrep', hkey'.trans hkey₁⟩
      simp [loopFrom, hstep, hloop]

/-- A walk over a range of keys sees the LSAs of the range, and leaves the database as it was. -/
theorem Rep.rangeWalk (h : Rep s none l) {k : List UInt8} (same : LsaKey → Bool) (hk : k.length ≠ 10)
    (hsame : ∀ j, byteBits k <+: nodeOf j ↔ same j = true) :
    ∃ s₁ s', lsdbRangeHead s k = some (s₁, (l.filter fun a => same (s.key a)).head?) ∧
      loopFrom (fun s _ => some s) (lsdbRangeNext same) s.table.top.nodes.length s₁
        (l.filter fun a => same (s.key a)).head? = some (s', l.filter fun a => same (s.key a)) ∧
      Rep s' none l ∧ s'.key = s.key := by
  have hlen : (byteBits k).length ≠ 80 := by
    rw [length_byteBits]
    omega
  have hfilter : (l.filter fun a => byteBits k <+: nodeOf (s.key a)) = l.filter fun a => same (s.key a) :=
    List.filter_congr fun a _ => by rw [Bool.eq_iff_iff, decide_eq_true_iff, hsame]
  have hrange := h.kept.rangeHead (k := byteBits k) (fun hmem => h.glue _ hmem hlen) (h.info_glue hlen)
  rw [h.stored, List.filter_map, List.head?_map] at hrange
  have hcomp : l.filter ((fun b => decide (byteBits k <+: b)) ∘ fun a => nodeOf (s.key a)) =
      l.filter fun a => same (s.key a) := hfilter
  rw [hcomp] at hrange
  have hsub : ∀ a ∈ (l.filter fun a => same (s.key a)).head?, a ∈ l := fun a ha =>
    List.mem_of_mem_filter (List.mem_of_mem_head? ha)
  have hbind : ((l.filter fun a => same (s.key a)).head?.map fun a => nodeOf (s.key a)).bind s.table.info =
      (l.filter fun a => same (s.key a)).head? := by
    cases ho : (l.filter fun a => same (s.key a)).head? with
    | none => rfl
    | some a => exact h.info a (hsub a (by simp [ho]))
  obtain ⟨s₁, hlock, hrep₁, -, hkey₁, -⟩ := h.lsaLock? hsub
  have hasc := h.kept.stored_pairwise
  rw [h.stored, List.pairwise_map] at hasc
  obtain ⟨as, bs, heq, hbs⟩ := filter_prefix_together hasc (byteBits k)
  rw [hfilter] at heq
  have hrest : ∀ c ∈ l.filter fun a => same (s.key a), same (s₁.key c) = true := by
    intro c hc
    rw [hkey₁]
    exact (List.mem_filter.mp hc).2
  have hout : ∀ c ∈ bs, same (s₁.key c) = false := by
    intro c hc
    rw [hkey₁, Bool.eq_false_iff]
    exact fun hs => hbs c hc ((hsame _).mpr hs)
  obtain ⟨s', hloop, hrep', hkey'⟩ := hrep₁.rangeLoop heq hrest hout
    ((List.length_filter_le _ _).trans h.length_le)
  refine ⟨s₁, s', ?_, hloop, hrep', hkey'.trans hkey₁⟩
  simp only [lsdbRangeHead, hrange, hbind, hlock, Option.bind_eq_bind, Option.bind_some, Option.pure_def]

theorem Rep.typeWalk (h : Rep s none l) (type : UInt16) :
    ∃ s', typeWalk type s = some (s', l.filter fun a => (s.key a).type == type) ∧ Rep s' none l ∧
      s'.key = s.key := by
  obtain ⟨s₁, s', hhead, hloop, hrep⟩ := h.rangeWalk (k := typeKey type) (fun k => k.type == type)
    (by simp [typeKey, htons]) fun j => by rw [typeKey_prefix_iff, beq_iff_eq]
  refine ⟨s', ?_, hrep⟩
  simp only [LsdbTree.typeWalk, lsdbTypeHead, hhead, lsdbTypeNext, hloop, Option.bind_eq_bind, Option.bind_some]

theorem Rep.typeRouterWalk (h : Rep s none l) (type : UInt16) (advRouter : UInt32) :
    ∃ s', typeRouterWalk type advRouter s =
        some (s', l.filter fun a => (s.key a).type == type && (s.key a).advRouter == advRouter) ∧
      Rep s' none l ∧ s'.key = s.key := by
  obtain ⟨s₁, s', hhead, hloop, hrep⟩ := h.rangeWalk (k := typeRouterKey type advRouter)
    (fun k => k.type == type && k.advRouter == advRouter) (by simp [typeRouterKey, typeKey, htons, htonl])
    fun j => by rw [typeRouterKey_prefix_iff, Bool.and_eq_true, beq_iff_eq, beq_iff_eq]
  refine ⟨s', ?_, hrep⟩
  simp only [LsdbTree.typeRouterWalk, lsdbTypeRouterHead, hhead, lsdbTypeRouterNext, hloop, Option.bind_eq_bind,
    Option.bind_some]

end Rep

/-- What is done with a database: LSAs are created, added and removed, looked up, and gone through by loops, which may
remove the LSA they stand at. -/
inductive Op where
  | create (a : Addr) (k : LsaKey) (length : UInt16) (headeronly : Bool)
  | add (a : Addr) (expired : Addr → Bool)
  | remove (a : Addr)
  | lookup (k : LsaKey)
  | sweep (drop : Addr → Bool)
  | typeWalk (type : UInt16)
  | typeRouterWalk (type : UInt16) (advRouter : UInt32)

def step (s : Db) : Op → Option Db
  | .create a k length headeronly => some (lsaCreate s a k length headeronly)
  | .add a expired => lsdbAdd s expired a
  | .remove a => lsdbRemove s a
  | .lookup k => some (lsdbLookup s k).1
  | .sweep drop => (sweep drop s).map Prod.fst
  | .typeWalk type => (typeWalk type s).map Prod.fst
  | .typeRouterWalk type advRouter => (typeRouterWalk type advRouter s).map Prod.fst

/-- What a database is for: at each key the last LSA that was added and not removed since. -/
structure Contents where
  key : Addr → LsaKey
  find : LsaKey → Option Addr

def Contents.step (c : Contents) : Op → Contents
  | .create a k _ _ => { c with key := Function.update c.key a k }
  | .add a _ => { c with find := Function.update c.find (c.key a) (some a) }
  | .remove a => { c with find := Function.update c.find (c.key a) none }
  | .sweep drop => { c with find := fun k => (c.find k).filter fun a => !drop a }
  | .lookup _ | .typeWalk _ | .typeRouterWalk _ _ => c

/-- An LSA has a header, and is created where nothing is allocated; it is added if it has not been freed, and removed
if it is present. -/
def Op.Legal (s : Db) (c : Contents) : Op → Prop
  | .create a _ length headeronly => s.live a = false ∧ (headeronly = false → 20 ≤ length)
  | .add a _ => s.live a = true
  | .remove a => c.find (c.key a) = some a
  | _ => True

/-- An LSA is added where there is none with its key, or one that it can be compared with. -/
def Op.Safe (s : Db) (c : Contents) : Op → Prop
  | .add a expired => ∀ o ∈ c.find (c.key a), Comparable s expired o a
  | _ => True

/-- Each operation of a run meets a condition on the database it is done with. -/
def EachOp (P : Db → Contents → Op → Prop) : Db → Contents → List Op → Prop
  | _, _, [] => True
  | s, c, op :: ops => P s c op ∧ ∀ s' ∈ step s op, EachOp P s' (c.step op) ops

instance (s : Db) (c : Contents) : DecidablePred (Op.Legal s c)
  | .create a _ length headeronly => inferInstanceAs (Decidable (s.live a = false ∧ (headeronly = false → 20 ≤ length)))
  | .add a _ => inferInstanceAs (Decidable (s.live a = true))
  | .remove a => inferInstanceAs (Decidable (c.find (c.key a) = some a))
  | .lookup _ | .sweep _ | .typeWalk _ | .typeRouterWalk _ _ => .isTrue trivial

instance (s : Db) (c : Contents) : DecidablePred (Op.Safe s c)
  | .add a expired =>
    let _ : Decidable (∀ o ∈ c.find (c.key a), Comparable s expired o a) := Option.decidableForallMem _
    inferInstanceAs (Decidable (∀ o ∈ c.find (c.key a), Comparable s expired o a))
  | .create _ _ _ _ | .remove _ | .lookup _ | .sweep _ | .typeWalk _ | .typeRouterWalk _ _ => .isTrue trivial

def decidableEachOp (P : Db → Contents → Op → Prop) [∀ s c, DecidablePred (P s c)] :
    (s : Db) → (c : Contents) → (ops : List Op) → Decidable (EachOp P s c ops)
  | _, _, [] => .isTrue trivial
  | s, c, op :: ops =>
    let _ : ∀ s', Decidable (EachOp P s' (c.step op) ops) := fun s' => decidableEachOp P s' (c.step op) ops
    let _ : Decidable (∀ s' ∈ step s op, EachOp P s' (c.step op) ops) := Option.decidableForallMem _
    inferInstanceAs (Decidable (P s c op ∧ ∀ s' ∈ step s op, EachOp P s' (c.step op) ops))

instance (P : Db → Contents → Op → Prop) [∀ s c, DecidablePred (P s c)] (s : Db) (c : Contents) (ops : List Op) :
    Decidable (EachOp P s c ops) :=
  decidableEachOp P s c ops

/-- A database holds what it should. -/
structure Tracks (s : Db) (c : Contents) (l : List Addr) : Prop where
  rep : Rep s none l
  key : s.key = c.key
  find : ∀ k a, c.find k = some a ↔ a ∈ l ∧ c.key a = k

theorem tracks_empty (key : Addr → LsaKey) : Tracks (empty key) ⟨key, fun _ => none⟩ [] :=
  ⟨rep_empty key, rfl, by simp⟩

section Tracks

variable {s : Db} {c : Contents} {l : List Addr}

theorem Tracks.lookup (h : Tracks s c l) (k : LsaKey) : (lsdbLookup s k).2 = c.find k := by
  rw [(h.rep.lookup k).2]
  refine Option.ext fun a => ?_
  rw [h.rep.info_iff, h.find, h.key]

theorem Tracks.create (h : Tracks s c l) {a : Addr} (ha : s.live a = false) (k : LsaKey) (length : UInt16)
    (headeronly : Bool) :
    Tracks (lsaCreate s a k length headeronly) (c.step (.create a k length headeronly)) l := by
  have hne : ∀ b ∈ l, b ≠ a := by
    rintro b hb rfl
    rw [h.rep.live b hb] at ha
    exact absurd ha (by simp)
  refine ⟨⟨h.rep.kept, h.rep.glue, ?_, fun b hb => ?_, ?_, h.rep.count, fun b hb => ?_, by simp, fun b hb => ?_⟩, ?_,
    fun j b => ?_⟩
  · refine h.rep.stored.trans (List.map_congr_left fun b hb => ?_)
    simp [lsaCreate, Function.update_of_ne (hne b hb)]
  · simpa [lsaCreate, Function.update_of_ne (hne b hb)] using h.rep.info b hb
  · refine Seg.congr h.rep.linked (fun b hb => ?_) fun b hb => ?_ <;>
      exact Function.update_of_ne (hne b hb) _ _
  · simpa [lsaCreate, Function.update_of_ne (hne b hb)] using h.rep.live b hb
  · by_cases hba : b = a
    · subst hba
      have hmem : b ∉ l := fun hm => hne b hm rfl
      simp [lsaCreate, hmem]
    · simp only [lsaCreate, Function.update_of_ne hba] at hb ⊢
      exact h.rep.lock b hb
  · simp [lsaCreate, Contents.step, h.key]
  · simp only [Contents.step, h.find]
    refine and_congr_right fun hb => ?_
    rw [Function.update_of_ne (hne b hb)]

theorem Tracks.info_eq (h : Tracks s c l) (k : LsaKey) : s.table.info (nodeOf k) = c.find k := by
  rw [← (h.rep.lookup k).2, h.lookup]

theorem Tracks.add (h : Tracks s c l) {a : Addr} {expired : Addr → Bool} (ha : s.live a = true)
    (hcmp : ∀ o ∈ c.find (c.key a), Comparable s expired o a) :
    ∃ s' l', lsdbAdd s expired a = some s' ∧ Tracks s' (c.step (.add a expired)) l' := by
  have hfound : ∀ o ∈ s.table.info (nodeOf (s.key a)), Comparable s expired o a := by rwa [h.info_eq, h.key]
  obtain ⟨s', l', hadd, hrep, hkey, hmem⟩ := h.rep.add ha hfound
  refine ⟨s', l', hadd, hrep, hkey.trans h.key, fun k b => ?_⟩
  simp only [Contents.step, hmem, h.key]
  by_cases hk : k = c.key a
  · subst hk
    simp only [Function.update_self, Option.some.injEq]
    constructor
    · rintro rfl
      exact ⟨.inl rfl, rfl⟩
    · rintro ⟨rfl | ⟨-, hne⟩, heq⟩
      · rfl
      · exact absurd heq hne
  · rw [Function.update_of_ne hk, h.find]
    constructor
    · rintro ⟨hb, rfl⟩
      exact ⟨.inr ⟨hb, hk⟩, rfl⟩
    · rintro ⟨rfl | ⟨hb, -⟩, rfl⟩
      · exact absurd rfl hk
      · exact ⟨hb, rfl⟩

theorem Tracks.remove (h : Tracks s c l) {a : Addr} (ha : c.find (c.key a) = some a) :
    ∃ s' l', lsdbRemove s a = some s' ∧ Tracks s' (c.step (.remove a)) l' := by
  obtain ⟨as, bs, rfl⟩ := List.append_of_mem ((h.find _ a).mp ha).1
  have hna : a ∉ as ++ bs := (List.nodup_cons.mp (List.perm_middle.nodup_iff.mp h.rep.nodup)).1
  obtain ⟨s', hrem, hrep, -, hkey, -⟩ := h.rep.remove
  refine ⟨s', as ++ bs, hrem, hrep, hkey.trans h.key, fun k b => ?_⟩
  simp only [Contents.step]
  by_cases hk : k = c.key a
  · subst hk
    simp only [Function.update_self, reduceCtorEq, false_iff, not_and]
    intro hb heq
    have hfind := (h.find (c.key a) b).mpr ⟨List.perm_middle.mem_iff.mpr (by simp [hb]), heq⟩
    rw [ha, Option.some.injEq] at hfind
    exact hna (hfind ▸ hb)
  · rw [Function.update_of_ne hk, h.find, List.perm_middle.mem_iff, List.mem_cons]
    constructor
    · rintro ⟨rfl | hb, rfl⟩
      · exact absurd rfl hk
      · exact ⟨hb, rfl⟩
    · rintro ⟨hb, rfl⟩
      exact ⟨.inr hb, rfl⟩

theorem Tracks.sweep (h : Tracks s c l) (drop : Addr → Bool) :
    ∃ s', sweep drop s = some (s', l) ∧ Tracks s' (c.step (.sweep drop)) (l.filter fun a => !drop a) := by
  obtain ⟨s', hsweep, hrep, hkey⟩ := h.rep.sweep drop
  refine ⟨s', hsweep, hrep, hkey.trans h.key, fun k b => ?_⟩
  simp only [Contents.step, Option.filter_eq_some_iff, h.find, List.mem_filter]
  tauto

/-- Every operation is done, and the database holds what it should afterwards. -/
theorem Tracks.step (h : Tracks s c l) {op : Op} (hop : op.Legal s c) (hsafe : op.Safe s c) :
    ∃ s' l', step s op = some s' ∧ Tracks s' (c.step op) l' := by
  cases op with
  | create a k length headeronly => exact ⟨_, l, rfl, h.create hop.1 k length headeronly⟩
  | add a expired => exact h.add hop hsafe
  | remove a => exact h.remove hop
  | lookup k =>
      refine ⟨_, l, rfl, (h.rep.lookup k).1, Eq.trans ?_ h.key, h.find⟩
      rw [lsdbLookup]
      split <;> rfl
  | sweep drop =>
      obtain ⟨s', hsweep, htracks⟩ := h.sweep drop
      exact ⟨s', _, by simp [LsdbTree.step, hsweep], htracks⟩
  | typeWalk type =>
      obtain ⟨s', hwalk, hrep, hkey⟩ := h.rep.typeWalk type
      exact ⟨s', l, by simp [LsdbTree.step, hwalk], hrep, hkey.trans h.key, h.find⟩
  | typeRouterWalk type advRouter =>
      obtain ⟨s', hwalk, hrep, hkey⟩ := h.rep.typeRouterWalk type advRouter
      exact ⟨s', l, by simp [LsdbTree.step, hwalk], hrep, hkey.trans h.key, h.find⟩

/-- An LSA that cannot be compared with the one in its place ends the program. -/
theorem Tracks.step_eq_none (h : Tracks s c l) {op : Op} (hop : op.Legal s c) (hnot : ¬ op.Safe s c) :
    LsdbTree.step s op = none := by
  cases op with
  | add a expired =>
      simp only [Op.Safe, not_forall] at hnot
      obtain ⟨o, ho, hcmp⟩ := hnot
      refine h.rep.add_eq_none hop ?_ hcmp
      rw [h.info_eq, h.key]
      exact ho
  | create a k length headeronly => exact absurd trivial hnot
  | remove a => exact absurd trivial hnot
  | lookup k => exact absurd trivial hnot
  | sweep drop => exact absurd trivial hnot
  | typeWalk type => exact absurd trivial hnot
  | typeRouterWalk type advRouter => exact absurd trivial hnot

theorem Tracks.run (h : Tracks s c l) {ops : List Op} (hops : EachOp Op.Legal s c ops)
    (hsafe : EachOp Op.Safe s c ops) :
    ∃ s' l', ops.foldlM LsdbTree.step s = some s' ∧ Tracks s' (ops.foldl Contents.step c) l' := by
  induction ops generalizing s c l with
  | nil => exact ⟨s, l, rfl, h⟩
  | cons op ops ih =>
      obtain ⟨s₁, l₁, hstep, htracks⟩ := h.step hops.1 hsafe.1
      obtain ⟨s', l', hrun, htracks'⟩ := ih htracks (hops.2 s₁ hstep) (hsafe.2 s₁ hstep)
      exact ⟨s', l', by simp [List.foldlM_cons, hstep, hrun], htracks'⟩

/-- A run that comes to its end has compared nothing that cannot be compared. -/
theorem Tracks.safe_of_run (h : Tracks s c l) {ops : List Op} {s' : Db} (hops : EachOp Op.Legal s c ops)
    (hrun : ops.foldlM LsdbTree.step s = some s') : EachOp Op.Safe s c ops := by
  induction ops generalizing s c l with
  | nil => trivial
  | cons op ops ih =>
      by_cases hsafe : op.Safe s c
      · obtain ⟨s₁, l₁, hstep, htracks⟩ := h.step hops.1 hsafe
        refine ⟨hsafe, fun t ht => ?_⟩
        obtain rfl := Option.some.inj (hstep.symm.trans ht)
        refine ih htracks (hops.2 s₁ hstep) ?_
        simpa [List.foldlM_cons, hstep] using hrun
      · have hnone := h.step_eq_none hops.1 hsafe
        simp [List.foldlM_cons, hnone] at hrun

end Tracks

/-- A database in which the LSAs are found, counted and gone through as they should be: `l` are the LSAs it holds. -/
structure Represents (s : Db) (c : Contents) (l : List Addr) : Prop where
  lookup : ∀ k, (lsdbLookup s k).2 = c.find k
  mem : ∀ a, a ∈ l ↔ c.find (c.key a) = some a
  ascending : l.Pairwise fun a b => lsaKey (c.key a) < lsaKey (c.key b)
  head : ∃ s', lsdbHead s = some (s', l.head?)
  next : ∀ as a bs, l = as ++ a :: bs → s.next a = bs.head?
  next_iff_prev : ∀ a ∈ l, ∀ b ∈ l, s.next a = some b ↔ s.prev b = some a
  head_prev : ∀ a ∈ l.head?, s.prev a = none
  count : s.count = l.length
  sweep : ∀ drop, ∃ s', sweep drop s = some (s', l)
  typeWalk : ∀ type, ∃ s', typeWalk type s = some (s', l.filter fun a => (c.key a).type == type)
  typeRouterWalk : ∀ type advRouter, ∃ s', typeRouterWalk type advRouter s =
    some (s', l.filter fun a => (c.key a).type == type && (c.key a).advRouter == advRouter)

theorem Tracks.represents {s : Db} {c : Contents} {l : List Addr} (h : Tracks s c l) : Represents s c l := by
  refine ⟨h.lookup, fun a => ?_, ?_, ?_, ?_, ?_, ?_, h.rep.count, fun drop => ?_, ?_, ?_⟩
  · rw [h.find]
    exact ⟨fun ha => ⟨ha, rfl⟩, fun ha => ha.1⟩
  · rw [← h.key]
    exact h.rep.ascending
  · obtain ⟨s', hhead, -⟩ := h.rep.lsdbHead
    exact ⟨s', hhead⟩
  · rintro as a bs rfl
    exact h.rep.linked.neighbours.2
  · intro a ha b hb
    exact h.rep.linked.next_iff_prev ha hb
  · intro a ha
    obtain ⟨l', rfl⟩ : ∃ l', l = a :: l' := ⟨l.tail, List.eq_cons_of_mem_head? ha⟩
    exact h.rep.linked.1
  · obtain ⟨s', hsweep, -⟩ := h.sweep drop
    exact ⟨s', hsweep⟩
  · intro type
    rw [← h.key]
    obtain ⟨s', hwalk, -⟩ := h.rep.typeWalk type
    exact ⟨s', hwalk⟩
  · intro type advRouter
    rw [← h.key]
    obtain ⟨s', hwalk, -⟩ := h.rep.typeRouterWalk type advRouter
    exact ⟨s', hwalk⟩

/-- Whatever is done with a database, it holds what it should, if and only if an LSA that is added in the place of
another can be compared with it. -/
theorem lsdb_represents_iff (key : Addr → LsaKey) (ops : List Op)
    (hops : EachOp Op.Legal (empty key) ⟨key, fun _ => none⟩ ops) :
    (∃ s l, ops.foldlM step (empty key) = some s ∧
      Represents s (ops.foldl Contents.step ⟨key, fun _ => none⟩) l) ↔
      EachOp Op.Safe (empty key) ⟨key, fun _ => none⟩ ops := by
  constructor
  · rintro ⟨s, l, hrun, -⟩
    exact (tracks_empty key).safe_of_run hops hrun
  · intro hsafe
    obtain ⟨s, l, hrun, h⟩ := (tracks_empty key).run hops hsafe
    exact ⟨s, l, hrun, h.represents⟩

/-- Two instances of one LSA and another LSA, of which the newer instance is removed while a loop stands at it. -/
def replacing : List Op :=
  [.create 0 ⟨0x2001, 0, 1⟩ 24 false, .create 1 ⟨0x2001, 0, 1⟩ 24 false, .create 2 ⟨0x2002, 7, 1⟩ 20 true,
    .add 0 fun _ => false, .add 2 fun _ => false, .add 1 fun _ => false, .typeWalk 0x2001, .sweep (· == 1)]

theorem lsdb_represents_iff_replacing :
    ∃ s l, replacing.foldlM step (empty fun _ => ⟨0, 0, 0⟩) = some s ∧
      Represents s (replacing.foldl Contents.step ⟨fun _ => ⟨0, 0, 0⟩, fun _ => none⟩) l :=
  (lsdb_represents_iff _ _ (by decide)).mpr (by decide)

/-- The header of an LSA without a body, taken from two messages. -/
def repeated : List Op :=
  [.create 0 ⟨0x2003, 0, 1⟩ 20 true, .create 1 ⟨0x2003, 0, 1⟩ 20 true, .add 0 fun _ => false, .add 1 fun _ => false]

/-- The second one does not take the place of the first. -/
theorem repeated_not_represented :
    EachOp Op.Legal (empty fun _ => ⟨0, 0, 0⟩) ⟨fun _ => ⟨0, 0, 0⟩, fun _ => none⟩ repeated ∧
      ¬ ∃ s l, repeated.foldlM step (empty fun _ => ⟨0, 0, 0⟩) = some s ∧
        Represents s (repeated.foldl Contents.step ⟨fun _ => ⟨0, 0, 0⟩, fun _ => none⟩) l := by
  refine ⟨by decide, ?_⟩
  rintro ⟨s, l, hrun, -⟩
  have hnone : (repeated.foldlM step (empty fun _ => ⟨0, 0, 0⟩)).isNone = true := by decide
  rw [hrun] at hnone
  exact absurd hnone (by simp)

end Harry.LsdbTree
