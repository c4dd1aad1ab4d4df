import Harry.TablePrefix

/-! `lib/table.c` over memory: the nodes of one table with their `parent` and `link` pointers, the reference counts, and
the functions with their loops. An address under which no node is allocated cannot be read, so that a function that
follows a dangling pointer, or whose assertion fails, has no result. What `calloc` returns is given to the functions
that allocate. A loop is bounded by the number of nodes that are allocated. The lock is a natural number here. -/

namespace Harry.Table

variable {α : Type}

abbrev Addr := Nat

/-- `struct route_node`. The lock has no bound here; that of the source is an `unsigned int`, which is the same while there
are fewer than 2^32 holds of a node. -/
structure Node (α : Type) where
  p : Prefix
  parent : Option Addr
  left : Option Addr
  right : Option Addr
  lock : Nat
  info : Option α

/-- `link[bit]`. -/
def Node.link (n : Node α) (bit : Bool) : Option Addr :=
  if bit then n.right else n.left

def Node.putLink (n : Node α) (bit : Bool) (a : Option Addr) : Node α :=
  if bit then { n with right := a } else { n with left := a }

/-- `struct route_table` with the memory of its nodes. -/
structure Heap (α : Type) where
  top : Option Addr
  node : Addr → Option (Node α)
  size : Nat

/-- `route_table_init`. -/
def heapInit : Heap α :=
  ⟨none, fun _ => none, 0⟩

namespace Heap

/-- What is allocated is overwritten. -/
def write (h : Heap α) (a : Addr) (n : Node α) : Heap α :=
  { h with node := Function.update h.node a (some n) }

/-- Zeroed memory. -/
def zeroPrefix : Prefix :=
  ⟨.unspec, 0, fun _ => 0⟩

def zero : Node α :=
  ⟨zeroPrefix, none, none, none, 0, none⟩

/-- `route_node_new`, at the address from `calloc`. -/
def routeNodeNew (h : Heap α) (a : Addr) : Heap α :=
  { h with node := Function.update h.node a (some zero), size := h.size + 1 }

/-- `route_node_set`. -/
def routeNodeSet (h : Heap α) (a : Addr) (p : Prefix) : Heap α :=
  (h.routeNodeNew a).write a { zero with p := prefixCopy zeroPrefix p }

/-- `route_node_free`. -/
def routeNodeFree (h : Heap α) (a : Addr) : Heap α :=
  { h with node := Function.update h.node a none, size := h.size - 1 }

/-- What a user hangs on a node. -/
def setInfo (h : Heap α) (a : Addr) (i : Option α) : Option (Heap α) := do
  let n ← h.node a
  pure (h.write a { n with info := i })

/-- `set_link`. -/
def setLink (h : Heap α) (node new : Addr) : Option (Heap α) := do
  let n ← h.node node
  let m ← h.node new
  let h := h.write node (n.putLink (prefixBit m.p.u n.p.prefixlen) (some new))
  let m ← h.node new
  pure (h.write new { m with parent := some node })

/-- A new node goes below the last one that matched, or on top. -/
def linkBelow (h : Heap α) : Option Addr → Addr → Option (Heap α)
  | none, new => some { h with top := some new }
  | some matched, new => h.setLink matched new

/-- `route_lock_node`. -/
def routeLockNode (h : Heap α) (a : Addr) : Option (Heap α) := do
  let n ← h.node a
  pure (h.write a { n with lock := n.lock + 1 })

/-- A pointer that may be null, locked if it is not. -/
def lockNode? (h : Heap α) : Option Addr → Option (Heap α)
  | none => some h
  | some a => h.routeLockNode a

/-- `child->parent = parent`, if there is a child. -/
def putParent (h : Heap α) (parent : Option Addr) : Option Addr → Option (Heap α)
  | none => some h
  | some child => do
    let n ← h.node child
    pure (h.write child { n with parent := parent })

/-- The child takes the place of the node below its parent, or on top. -/
def putChild (h : Heap α) (node : Addr) (child : Option Addr) : Option Addr → Option (Heap α)
  | none => some { h with top := child }
  | some parent => do
    let n ← h.node parent
    pure (h.write parent (if n.left = some node then { n with left := child } else { n with right := child }))

/-- `route_node_delete`. The first argument bounds the number of nodes that can go. -/
def routeNodeDelete : Nat → Heap α → Addr → Option (Heap α)
  | 0, _, _ => none
  | fuel + 1, h, node => do
    let n ← h.node node
    if n.lock ≠ 0 ∨ n.info ≠ none then none
    else if n.left ≠ none ∧ n.right ≠ none then pure h
    else
      let child := if n.left ≠ none then n.left else n.right
      let h ← h.putParent n.parent child
      let h ← h.putChild node child n.parent
      let h := h.routeNodeFree node
      match n.parent with
      | none => pure h
      | some parent => do
        let q ← h.node parent
        if q.lock = 0 then routeNodeDelete fuel h parent else pure h

/-- `route_unlock_node`. -/
def routeUnlockNode (h : Heap α) (a : Addr) : Option (Heap α) := do
  let n ← h.node a
  if n.lock = 0 then none
  else
    let h := h.write a { n with lock := n.lock - 1 }
    if n.lock = 1 then routeNodeDelete h.size h a else pure h

/-- The walk of `route_node_match`, from a node on. -/
def matchFrom (h : Heap α) (p : Prefix) : Nat → Option Addr → Option Addr → Option (Option Addr)
  | _, none, matched => some matched
  | 0, some _, _ => none
  | fuel + 1, some node, matched => do
    let n ← h.node node
    if n.p.prefixlen ≤ p.prefixlen ∧ prefixMatch n.p p then
      matchFrom h p fuel (n.link (prefixBit p.u n.p.prefixlen)) (if n.info ≠ none then some node else matched)
    else pure matched

/-- `route_node_match`. -/
def routeNodeMatch (h : Heap α) (p : Prefix) : Option (Heap α × Option Addr) := do
  let matched ← h.matchFrom p h.size h.top none
  let h ← h.lockNode? matched
  pure (h, matched)

/-- The walk of `route_node_lookup`, from a node on. -/
def lookupFrom (h : Heap α) (p : Prefix) : Nat → Option Addr → Option (Option Addr)
  | _, none => some none
  | 0, some _ => none
  | fuel + 1, some node => do
    let n ← h.node node
    if n.p.prefixlen ≤ p.prefixlen ∧ prefixMatch n.p p then
      if n.p.prefixlen = p.prefixlen ∧ n.info ≠ none then pure (some node)
      else lookupFrom h p fuel (n.link (prefixBit p.u n.p.prefixlen))
    else pure none

/-- `route_node_lookup`. -/
def routeNodeLookup (h : Heap α) (p : Prefix) : Option (Heap α × Option Addr) := do
  let node ← h.lookupFrom p h.size h.top
  let h ← h.lockNode? node
  pure (h, node)

/-- Where the walk of `route_node_get` ends: at a node of the prefix, or below `matched` and in front of `node`. -/
inductive Place where
  | found (node : Addr)
  | between (matched node : Option Addr)

/-- The walk of `route_node_get`, from a node on. -/
def placeFrom (h : Heap α) (p : Prefix) : Nat → Option Addr → Option Addr → Option Place
  | _, matched, none => some (.between matched none)
  | 0, _, some _ => none
  | fuel + 1, matched, some node => do
    let n ← h.node node
    if n.p.prefixlen ≤ p.prefixlen ∧ prefixMatch n.p p then
      if n.p.prefixlen = p.prefixlen then pure (.found node)
      else placeFrom h p fuel (some node) (n.link (prefixBit p.u n.p.prefixlen))
    else pure (.between matched (some node))

/-- The node that stands for what a prefix and a node in the tree have in common, above that node. -/
def splitAbove (h : Heap α) (p : Prefix) (matched : Option Addr) (node new : Addr) : Option (Heap α) := do
  let n ← h.node node
  let h := (h.routeNodeNew new).write new { zero with p := { routeCommon n.p p zeroPrefix with family := p.family } }
  let h ← h.setLink new node
  h.linkBelow matched new

/-- `route_node_get`, with the addresses of its first and of its second new node. -/
def routeNodeGet (h : Heap α) (p : Prefix) (new₁ new₂ : Addr) : Option (Heap α × Addr) := do
  match ← h.placeFrom p h.size none h.top with
  | .found node => do
    let h ← h.routeLockNode node
    pure (h, node)
  | .between matched none => do
    let h ← (h.routeNodeSet new₁ p).linkBelow matched new₁
    let h ← h.routeLockNode new₁
    pure (h, new₁)
  | .between matched (some node) => do
    let h ← h.splitAbove p matched node new₁
    let new ← h.node new₁
    if new.p.prefixlen ≠ p.prefixlen then do
      let h ← (h.routeNodeSet new₂ p).setLink new₁ new₂
      let h ← h.routeLockNode new₂
      pure (h, new₂)
    else do
      let h ← h.routeLockNode new₁
      pure (h, new₁)

/-- `route_top`. -/
def routeTop (h : Heap α) : Option (Heap α × Option Addr) := do
  let top := h.top
  let h ← h.lockNode? top
  pure (h, top)

/-- The loop of `route_next`, up to a node that hangs on the left of one with a right branch. -/
def climb (h : Heap α) : Nat → Addr → Option (Option Addr)
  | 0, _ => none
  | fuel + 1, node => do
    let n ← h.node node
    match n.parent with
    | none => pure none
    | some parent => do
      let q ← h.node parent
      if q.left = some node ∧ q.right ≠ none then pure q.right else climb h fuel parent

/-- The node that `route_next` goes on to. -/
def nextNode (h : Heap α) (node : Addr) : Option (Option Addr) := do
  let n ← h.node node
  if n.left ≠ none then pure n.left
  else if n.right ≠ none then pure n.right
  else h.climb h.size node

/-- `route_next`. -/
def routeNext (h : Heap α) (node : Addr) : Option (Heap α × Option Addr) := do
  let next ← h.nextNode node
  let h ← h.lockNode? next
  let h ← h.routeUnlockNode node
  pure (h, next)

/-- The loop of the users over `route_next`, with the nodes that it comes to. -/
def visitFrom : Nat → Heap α → Option Addr → Option (Heap α × List Addr)
  | _, h, none => some (h, [])
  | 0, _, some _ => none
  | fuel + 1, h, some node => do
    let (h, next) ← h.routeNext node
    let (h, nodes) ← visitFrom fuel h next
    pure (h, node :: nodes)

/-- `for (node = route_top (table); node; node = route_next (node))`. -/
def visit (h : Heap α) : Option (Heap α × List Addr) := do
  let (h, top) ← h.routeTop
  visitFrom h.size h top

/-- The loop of `route_prev`. -/
def prevLoop (stop : Addr) : Nat → Heap α → Addr → Option (Heap α × Addr)
  | 0, _, _ => none
  | fuel + 1, h, node => do
    let (h, next) ← h.routeNext node
    match next with
    | none => pure (h, node)
    | some next =>
      if next = stop then do
        let h ← h.routeUnlockNode next
        pure (h, node)
      else prevLoop stop fuel h next

/-- `route_prev`. -/
def routePrev (h : Heap α) (node : Addr) : Option (Heap α × Option Addr) := do
  let n ← h.node node
  match n.parent with
  | none => do
    let h ← h.routeUnlockNode node
    pure (h, none)
  | some parent => do
    let h ← h.routeLockNode parent
    let (h, prev) ← prevLoop node h.size h parent
    let h ← h.routeUnlockNode node
    let h ← h.routeLockNode prev
    pure (h, some prev)

end Heap

end Harry.Table
