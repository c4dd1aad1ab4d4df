import Harry.BaseRing

/-! The circular lists of `dblist.c`, which nearly everything that is kept in a list is chained in: heads and elements are
nodes of one kind, and a call is given a pointer to any of them. -/

namespace Harry.DbList

open Harry.Base

variable {ρ : Type} [DecidableEq ρ]

def setNext (l : Links ρ) (a b : ρ) : Links ρ := { l with next := Function.update l.next a b }

def setPrev (l : Links ρ) (a b : ρ) : Links ρ := { l with prev := Function.update l.prev a b }

/-- `list_init`. -/
def listInit (l : Links ρ) (list : ρ) : Links ρ := setNext (setPrev l list list) list list

/-- `list_insert`. -/
def listInsert (l : Links ρ) (before elem : ρ) : Links ρ :=
  let l := setPrev l elem (l.prev before)
  let l := setNext l elem before
  let l := setNext l (l.prev before) elem
  setPrev l before elem

/-- `list_push_back`. -/
def listPushBack (l : Links ρ) (list elem : ρ) : Links ρ := listInsert l list elem

/-- `list_remove`, with the element that followed. -/
def listRemove (l : Links ρ) (elem : ρ) : Links ρ × ρ :=
  let l := setNext l (l.prev elem) (l.next elem)
  let l := setPrev l (l.next elem) (l.prev elem)
  (l, l.next elem)

/-- `list_pop_front`. -/
def listPopFront (l : Links ρ) (list : ρ) : Links ρ × ρ :=
  let front := l.next list
  ((listRemove l front).1, front)

/-- `list_peek_front`. -/
def listPeekFront (l : Links ρ) (list : ρ) : ρ := l.next list

/-- `LIST_FOR_EACH`, whose body may change the links. The node behind the present one is read after the body. -/
def forEach {σ : Type} (links : σ → Links ρ) (body : ρ → σ → σ) (list : ρ) : Nat → ρ → σ → Option σ
  | 0, _, _ => none
  | n + 1, iter, s =>
    if iter = list then some s
    else forEach links body list n ((links (body iter s)).next iter) (body iter s)

/-- `LIST_FOR_EACH_SAFE`: the node behind the present one is read before the body. -/
def forEachSafe {σ : Type} (links : σ → Links ρ) (body : ρ → σ → σ) (list : ρ) : Nat → ρ → σ → Option σ
  | 0, _, _ => none
  | n + 1, iter, s =>
    if iter = list then some s
    else forEachSafe links body list n ((links s).next iter) (body iter s)

/-- `LIST_FOR_EACH_REVERSE`. -/
def forEachReverse {σ : Type} (links : σ → Links ρ) (body : ρ → σ → σ) (list : ρ) : Nat → ρ → σ → Option σ
  | 0, _, _ => none
  | n + 1, iter, s =>
    if iter = list then some s
    else forEachReverse links body list n ((links (body iter s)).prev iter) (body iter s)

/-- `list_size`. -/
def listSize (fuel : Nat) (l : Links ρ) (list : ρ) : Option Nat :=
  forEach (fun _ => l) (fun _ cnt => cnt + 1) list fuel (l.next list) 0

/-- `list_empty`. -/
def listEmpty (fuel : Nat) (l : Links ρ) (list : ρ) : Option Bool := (listSize fuel l list).map (· == 0)

variable {l : Links ρ} {m m' : Members ρ} {h e : ρ} {ms as bs : List ρ}

theorem listInsert_eq {before elem : ρ} (h : elem ≠ before) : listInsert l before elem = l.insert before elem := by
  simp only [listInsert, setNext, setPrev, Links.insert, Function.update_of_ne h.symm]

theorem update_next_self (l : Links ρ) (e : ρ) : Function.update l.next (l.prev e) (l.next e) e = l.next e := by
  by_cases heq : e = l.prev e
  · conv_lhs => rw [← heq, Function.update_self]
  · rw [Function.update_of_ne heq]

theorem unlink_next_self (l : Links ρ) (e : ρ) : (l.unlink e).next e = l.next e := update_next_self l e

theorem listRemove_links (l : Links ρ) (elem : ρ) : (listRemove l elem).1 = l.unlink elem := by
  simp only [listRemove, setNext, setPrev, Links.unlink, update_next_self]

theorem listRemove_node (l : Links ρ) (elem : ρ) : (listRemove l elem).2 = l.next elem := by
  have hsnd : (listRemove l elem).2 = (listRemove l elem).1.next elem := rfl
  rw [hsnd, listRemove_links, unlink_next_self]

section Loop

variable {σ : Type} {links : σ → Links ρ} {body : ρ → σ → σ} {list : ρ} {I : List ρ → σ → Prop}

/-- A loop ends if what holds of the nodes to come holds of those behind the present one after the body, and the link
to them is as it was. -/
theorem forEach_rule
    (hI : ∀ s e rest, I (e :: rest) s →
      e ≠ list ∧ (links (body e s)).next e = rest.headD list ∧ I rest (body e s))
    {fuel : Nat} {s : σ} (hfuel : ms.length < fuel) (h : I ms s) :
    ∃ s', forEach links body list fuel (ms.headD list) s = some s' ∧ I [] s' := by
  induction ms generalizing fuel s with
  | nil =>
      obtain ⟨n, rfl⟩ := Nat.exists_eq_succ_of_ne_zero (Nat.ne_of_gt hfuel)
      exact ⟨s, by rw [forEach, List.headD_nil, if_pos rfl], h⟩
  | cons e rest ih =>
      obtain ⟨n, rfl⟩ := Nat.exists_eq_succ_of_ne_zero (Nat.ne_of_gt (Nat.zero_lt_of_lt hfuel))
      obtain ⟨hne, hnext, hrest⟩ := hI s e rest h
      rw [forEach, List.headD_cons, if_neg hne, hnext]
      exact ih (Nat.lt_of_succ_lt_succ hfuel) hrest

theorem forEachSafe_rule
    (hI : ∀ s e rest, I (e :: rest) s → e ≠ list ∧ (links s).next e = rest.headD list ∧ I rest (body e s))
    {fuel : Nat} {s : σ} (hfuel : ms.length < fuel) (h : I ms s) :
    ∃ s', forEachSafe links body list fuel (ms.headD list) s = some s' ∧ I [] s' := by
  induction ms generalizing fuel s with
  | nil =>
      obtain ⟨n, rfl⟩ := Nat.exists_eq_succ_of_ne_zero (Nat.ne_of_gt hfuel)
      exact ⟨s, by rw [forEachSafe, List.headD_nil, if_pos rfl], h⟩
  | cons e rest ih =>
      obtain ⟨n, rfl⟩ := Nat.exists_eq_succ_of_ne_zero (Nat.ne_of_gt (Nat.zero_lt_of_lt hfuel))
      obtain ⟨hne, hnext, hrest⟩ := hI s e rest h
      rw [forEachSafe, List.headD_cons, if_neg hne, hnext]
      exact ih (Nat.lt_of_succ_lt_succ hfuel) hrest

/-- Backwards is forwards with the links the other way round. -/
theorem forEachReverse_eq (fuel : Nat) (iter : ρ) (s : σ) :
    forEachReverse links body list fuel iter s = forEach (fun s => (links s).flip) body list fuel iter s := by
  induction fuel generalizing iter s with
  | zero => rfl
  | succ n ih => rw [forEachReverse, forEach, ih, Links.flip]

end Loop

/-- The calls. The loops collect what they come by; the body of the first two may remove the present element. -/
inductive Call (ρ : Type) where
  | init (list : ρ)
  | insert (before elem : ρ)
  | pushBack (list elem : ρ)
  | remove (elem : ρ)
  | popFront (list : ρ)
  | peekFront (list : ρ)
  | size (list : ρ)
  | empty (list : ρ)
  | forEach (list : ρ) (test : ρ → Bool)
  | forEachSafe (list : ρ) (test : ρ → Bool)
  | forEachReverse (list : ρ)

inductive Reply (ρ : Type) where
  | unit
  | node (elem : ρ)
  | size (n : Nat)
  | empty (b : Bool)
  | nodes (elems : List ρ)

/-- The body of a loop that removes the elements of a kind. -/
def removeIf (test : ρ → Bool) (e : ρ) (s : Links ρ × List ρ) : Links ρ × List ρ :=
  (if test e then (listRemove s.1 e).1 else s.1, s.2 ++ [e])

/-- A call on the pointers; the loops go on for `fuel` nodes at most. -/
def call (fuel : Nat) (l : Links ρ) : Call ρ → Option (Links ρ × Reply ρ)
  | .init list => some (listInit l list, .unit)
  | .insert before elem => some (listInsert l before elem, .unit)
  | .pushBack list elem => some (listPushBack l list elem, .unit)
  | .remove elem => some ((listRemove l elem).1, .node (listRemove l elem).2)
  | .popFront list => some ((listPopFront l list).1, .node (listPopFront l list).2)
  | .peekFront list => some (l, .node (listPeekFront l list))
  | .size list => (listSize fuel l list).map fun n => (l, .size n)
  | .empty list => (listEmpty fuel l list).map fun b => (l, .empty b)
  | .forEach list test =>
    (forEach Prod.fst (removeIf test) list fuel (l.next list) (l, [])).map (Prod.map id .nodes)
  | .forEachSafe list test =>
    (forEachSafe Prod.fst (removeIf test) list fuel (l.next list) (l, [])).map (Prod.map id .nodes)
  | .forEachReverse list =>
    (forEachReverse (fun _ => l) (fun e seen => seen ++ [e]) list fuel (l.prev list) []).map fun seen =>
      (l, .nodes seen)

/-- A run of calls, with what they return. -/
def run (fuel : Nat) : Links ρ → List (Call ρ) → Option (Links ρ × List (Reply ρ))
  | l, [] => some (l, [])
  | l, c :: cs => do
    let (l, r) ← call fuel l c
    let (l, rs) ← run fuel l cs
    some (l, r :: rs)

/-- What a call does to the lists, if it is one that a caller may make: an element that is put into a list is in no
other one (it may be a list of its own, which is then none any more), and an element that is removed is in one. -/
inductive Does (m : Members ρ) : Call ρ → Reply ρ → Members ρ → Prop where
  | init (h : ρ) (hfree : ∀ c ms, m c = some ms → h ∉ ms) :
      Does m (.init h) .unit (Function.update m h (some []))
  | insert (h e : ρ) (as bs : List ρ) (hm : Function.update m e none h = some (as ++ bs))
      (hfree : ∀ c ms, m c = some ms → e ∉ ms) :
      Does m (.insert (bs.headD h) e) .unit (Function.update (Function.update m e none) h (some (as ++ e :: bs)))
  | pushBack (h e : ρ) (ms : List ρ) (hm : Function.update m e none h = some ms)
      (hfree : ∀ c ms, m c = some ms → e ∉ ms) :
      Does m (.pushBack h e) .unit (Function.update (Function.update m e none) h (some (ms ++ [e])))
  | remove (h e : ρ) (as bs : List ρ) (hm : m h = some (as ++ e :: bs)) :
      Does m (.remove e) (.node (bs.headD h)) (Function.update m h (some (as ++ bs)))
  | popFront (h e : ρ) (ms : List ρ) (hm : m h = some (e :: ms)) :
      Does m (.popFront h) (.node e) (Function.update m h (some ms))
  | peekFront (h : ρ) (ms : List ρ) (hm : m h = some ms) : Does m (.peekFront h) (.node (ms.headD h)) m
  | size (h : ρ) (ms : List ρ) (hm : m h = some ms) : Does m (.size h) (.size ms.length) m
  | empty (h : ρ) (ms : List ρ) (hm : m h = some ms) : Does m (.empty h) (.empty ms.isEmpty) m
  | forEach (h : ρ) (ms : List ρ) (test : ρ → Bool) (hm : m h = some ms) :
      Does m (.forEach h test) (.nodes ms) (Function.update m h (some (ms.filter (!test ·))))
  | forEachSafe (h : ρ) (ms : List ρ) (test : ρ → Bool) (hm : m h = some ms) :
      Does m (.forEachSafe h test) (.nodes ms) (Function.update m h (some (ms.filter (!test ·))))
  | forEachReverse (h : ρ) (ms : List ρ) (hm : m h = some ms) : Does m (.forEachReverse h) (.nodes ms.reverse) m

/-- A run of calls that callers may make. -/
inductive Runs : Members ρ → List (Call ρ) → List (Reply ρ) → Members ρ → Prop where
  | nil (m : Members ρ) : Runs m [] [] m
  | cons {m m₁ m₂ : Members ρ} {c : Call ρ} {r : Reply ρ} {cs : List (Call ρ)} {rs : List (Reply ρ)}
      (hdoes : Does m c r m₁) (hruns : Runs m₁ cs rs m₂) : Runs m (c :: cs) (r :: rs) m₂

/-! ### Each call does what it should -/

omit [DecidableEq ρ] in
theorem next_of_mem (hr : Rings l m) (hm : m h = some (as ++ e :: bs)) : e ≠ h ∧ l.next e = bs.headD h := by
  have hnodup := hr.nodup h _ hm
  refine ⟨?_, (arc_append.mp (hr.arc h _ hm)).2.next_eq⟩
  rintro rfl
  exact (List.nodup_cons.mp hnodup).1 (by simp)

/-- An element that is in no other list is free when its own list is forgotten. -/
theorem free_of_forget (hfree : ∀ c ms, m c = some ms → e ∉ ms) : Free (Function.update m e none) e := by
  intro c ms hc hmem
  by_cases hce : c = e
  · rw [hce, Function.update_self] at hc
    cases hc
  · rw [Function.update_of_ne hce] at hc
    rcases List.mem_cons.mp hmem with heq | hmem
    · exact hce heq.symm
    · exact hfree c ms hc hmem

theorem rings_insert (hr : Rings l m) (hm : Function.update m e none h = some (as ++ bs))
    (hfree : ∀ c ms, m c = some ms → e ∉ ms) :
    Rings (listInsert l (bs.headD h) e) (Function.update (Function.update m e none) h (some (as ++ e :: bs))) := by
  have hfree' := free_of_forget hfree
  have hne : e ≠ bs.headD h := by
    intro heq
    refine hfree' h _ hm ?_
    rw [List.mem_cons, List.mem_append]
    exact (List.mem_cons.mp (heq ▸ headD_mem bs h)).imp_right .inr
  rw [listInsert_eq hne]
  exact (hr.forget e).insert hm hfree'

/-- Where a loop that removes elements stands: `rest` is still to come. -/
def Swept (m : Members ρ) (h : ρ) (ms : List ρ) (test : ρ → Bool) (rest : List ρ) (s : Links ρ × List ρ) : Prop :=
  s.2 ++ rest = ms ∧ Rings s.1 (Function.update m h (some (s.2.filter (!test ·) ++ rest)))

variable {test : ρ → Bool}

theorem Swept.step {rest : List ρ} {s : Links ρ × List ρ} (hs : Swept m h ms test (e :: rest) s) :
    e ≠ h ∧ s.1.next e = rest.headD h ∧ (removeIf test e s).1.next e = rest.headD h ∧
      Swept m h ms test rest (removeIf test e s) := by
  obtain ⟨hms, hr⟩ := hs
  have hm : Function.update m h (some (s.2.filter (!test ·) ++ e :: rest)) h =
      some (s.2.filter (!test ·) ++ e :: rest) := Function.update_self ..
  obtain ⟨hne, hnext⟩ := next_of_mem hr hm
  have hseen : s.2 ++ [e] ++ rest = ms := by rw [← hms, List.append_assoc, List.singleton_append]
  refine ⟨hne, hnext, ?_, hseen, ?_⟩
  · rw [removeIf, ← hnext]
    split
    · rw [listRemove_links, unlink_next_self]
    · rfl
  · by_cases ht : test e
    · have hout := hr.unlink hm
      rw [Function.update_idem] at hout
      simpa [removeIf, ht, listRemove_links] using hout
    · simpa [removeIf, ht] using hr

theorem swept_nil (hr : Rings l m) (hm : m h = some ms) : Swept m h ms test ms (l, []) := by
  refine ⟨rfl, ?_⟩
  rw [List.filter_nil, List.nil_append, ← hm, Function.update_eq_self]
  exact hr

omit [DecidableEq ρ] in
theorem next_head (hr : Rings l m) (hm : m h = some ms) : l.next h = ms.headD h := (hr.arc h ms hm).next_eq

theorem listSize_eq (hr : Rings l m) (hm : m h = some ms) {fuel : Nat} (hfuel : ms.length < fuel) :
    listSize fuel l h = some ms.length := by
  have hloop : ∃ n, forEach (fun _ => l) (fun _ cnt => cnt + 1) h fuel (ms.headD h) 0 = some n ∧
      ∃ seen, seen ++ [] = ms ∧ n = seen.length := by
    refine forEach_rule (I := fun rest cnt => ∃ seen, seen ++ rest = ms ∧ cnt = seen.length) ?_ hfuel ⟨[], rfl, rfl⟩
    rintro cnt e rest ⟨seen, rfl, rfl⟩
    obtain ⟨hne, hnext⟩ := next_of_mem hr hm
    refine ⟨hne, hnext, seen ++ [e], ?_, ?_⟩
    · rw [List.append_assoc, List.singleton_append]
    · rw [List.length_append, List.length_singleton]
  obtain ⟨n, hsize, seen, hseen, rfl⟩ := hloop
  rw [List.append_nil] at hseen
  rw [listSize, next_head hr hm, hsize, hseen]

theorem forEachReverse_nodes (hr : Rings l m) (hm : m h = some ms) {fuel : Nat} (hfuel : ms.length < fuel) :
    forEachReverse (fun _ => l) (fun e seen => seen ++ [e]) h fuel (l.prev h) [] = some ms.reverse := by
  have harc := (hr.arc h ms hm).flip
  have hnodup : h ∉ ms.reverse := by
    rw [List.mem_reverse]
    exact (List.nodup_cons.mp (hr.nodup h ms hm)).1
  have hprev : l.prev h = ms.reverse.headD h := harc.next_eq
  have hloop : ∃ seen, forEach (fun _ => l.flip) (fun e seen => seen ++ [e]) h fuel (ms.reverse.headD h) [] =
      some seen ∧ seen ++ [] = ms.reverse := by
    refine forEach_rule (I := fun rest seen => seen ++ rest = ms.reverse) ?_ (by rwa [List.length_reverse]) rfl
    intro seen e rest hseen
    rw [← hseen] at harc hnodup
    refine ⟨?_, (arc_append.mp harc).2.next_eq, ?_⟩
    · rintro rfl
      exact hnodup (by simp)
    · rw [← hseen, List.append_assoc, List.singleton_append]
  obtain ⟨seen, hloop, hseen⟩ := hloop
  rw [List.append_nil] at hseen
  rw [forEachReverse_eq, hprev, hloop, hseen]

/-- A call does to the pointers what it does to the lists, and returns that. -/
theorem Does.call {c : Call ρ} {r : Reply ρ} (hd : Does m c r m') (hr : Rings l m) {fuel : Nat}
    (hfuel : ∀ h ms, m h = some ms → ms.length < fuel) :
    ∃ l', DbList.call fuel l c = some (l', r) ∧ Rings l' m' := by
  cases hd with
  | init h hfree => exact ⟨_, rfl, hr.single hfree⟩
  | insert h e as bs hm hfree => exact ⟨_, rfl, rings_insert hr hm hfree⟩
  | pushBack h e ms hm hfree =>
      rw [← List.append_nil ms] at hm
      exact ⟨_, rfl, rings_insert hr hm hfree⟩
  | remove h e as bs hm =>
      refine ⟨l.unlink e, ?_, hr.unlink hm⟩
      rw [DbList.call, listRemove_links, listRemove_node, (next_of_mem hr hm).2]
  | popFront h e ms hm =>
      have hfront : l.next h = e := next_head hr hm
      rw [← List.nil_append (e :: ms)] at hm
      refine ⟨l.unlink e, ?_, hr.unlink hm⟩
      simp only [DbList.call, listPopFront, hfront, listRemove_links]
  | peekFront h ms hm => exact ⟨l, by rw [DbList.call, listPeekFront, next_head hr hm], hr⟩
  | size h ms hm =>
      refine ⟨l, ?_, hr⟩
      rw [DbList.call, listSize_eq hr hm (hfuel h ms hm), Option.map_some]
  | empty h ms hm =>
      refine ⟨l, ?_, hr⟩
      rw [DbList.call, listEmpty, listSize_eq hr hm (hfuel h ms hm), Option.map_some, Option.map_some]
      cases ms <;> rfl
  | forEach h ms test hm =>
      obtain ⟨⟨l', seen⟩, hloop, hseen, hr'⟩ := forEach_rule (I := Swept m h ms test) (fun s e rest hs => by
        obtain ⟨hne, -, hnext, hrest⟩ := hs.step
        exact ⟨hne, hnext, hrest⟩) (hfuel h ms hm) (swept_nil hr hm)
      simp only [List.append_nil] at hseen hr'
      subst hseen
      exact ⟨l', by rw [DbList.call, next_head hr hm, hloop]; rfl, hr'⟩
  | forEachSafe h ms test hm =>
      obtain ⟨⟨l', seen⟩, hloop, hseen, hr'⟩ := forEachSafe_rule (I := Swept m h ms test) (fun s e rest hs => by
        obtain ⟨hne, hnext, -, hrest⟩ := hs.step
        exact ⟨hne, hnext, hrest⟩) (hfuel h ms hm) (swept_nil hr hm)
      simp only [List.append_nil] at hseen hr'
      subst hseen
      exact ⟨l', by rw [DbList.call, next_head hr hm, hloop]; rfl, hr'⟩
  | forEachReverse h ms hm =>
      refine ⟨l, ?_, hr⟩
      rw [DbList.call, forEachReverse_nodes hr hm (hfuel h ms hm), Option.map_some]

/-- The lists have `n` elements at most. -/
def Short (n : Nat) (m : Members ρ) : Prop := ∀ h ms, m h = some ms → ms.length ≤ n

theorem Short.update {n : Nat} (hs : Short n m) (hms : ms.length ≤ n) : Short n (Function.update m h (some ms)) := by
  intro c cs hc
  by_cases hch : c = h
  · rw [hch, Function.update_self, Option.some.injEq] at hc
    exact hc ▸ hms
  · rw [Function.update_of_ne hch] at hc
    exact hs c cs hc

theorem Short.forget {n : Nat} (hs : Short n m) (e : ρ) : Short n (Function.update m e none) := by
  intro c cs hc
  by_cases hce : c = e
  · rw [hce, Function.update_self] at hc
    cases hc
  · rw [Function.update_of_ne hce] at hc
    exact hs c cs hc

omit [DecidableEq ρ] in
theorem Short.mono {n k : Nat} (hs : Short n m) (hk : n ≤ k) : Short k m :=
  fun h ms hm => Nat.le_trans (hs h ms hm) hk

/-- A call makes a list longer by one at most. -/
theorem Does.short {c : Call ρ} {r : Reply ρ} {n : Nat} (hd : Does m c r m') (hs : Short n m) : Short (n + 1) m' := by
  have hs' := hs.mono (Nat.le_succ n)
  cases hd with
  | init h hfree => exact hs'.update (Nat.zero_le _)
  | insert h e as bs hm hfree =>
      refine (hs'.forget e).update ?_
      have hlen := hs.forget e h _ hm
      rw [List.length_append] at hlen ⊢
      rw [List.length_cons]
      omega
  | pushBack h e ms hm hfree =>
      refine (hs'.forget e).update ?_
      have hlen := hs.forget e h _ hm
      rw [List.length_append, List.length_singleton]
      omega
  | remove h e as bs hm =>
      refine hs'.update ?_
      have hlen := hs h _ hm
      rw [List.length_append, List.length_cons] at hlen
      rw [List.length_append]
      omega
  | popFront h e ms hm =>
      refine hs'.update ?_
      have hlen := hs h _ hm
      rw [List.length_cons] at hlen
      omega
  | forEach h ms test hm => exact hs'.update (Nat.le_trans (List.length_filter_le _ ms) (hs' h ms hm))
  | forEachSafe h ms test hm => exact hs'.update (Nat.le_trans (List.length_filter_le _ ms) (hs' h ms hm))
  | peekFront => exact hs'
  | size => exact hs'
  | empty => exact hs'
  | forEachReverse => exact hs'

theorem Runs.run {cs : List (Call ρ)} {rs : List (Reply ρ)} {n fuel : Nat} (hruns : Runs m cs rs m') (hr : Rings l m)
    (hs : Short n m) (hfuel : n + cs.length < fuel) :
    ∃ l', DbList.run fuel l cs = some (l', rs) ∧ Rings l' m' := by
  induction hruns generalizing l n with
  | nil m => exact ⟨l, rfl, hr⟩
  | @cons m m₁ m₂ c r cs rs hdoes hruns ih =>
      rw [List.length_cons] at hfuel
      have hroom : ∀ h ms, m h = some ms → ms.length < fuel :=
        fun h ms hm => Nat.lt_of_le_of_lt (hs h ms hm) (by omega)
      obtain ⟨l₁, hcall, hr₁⟩ := hdoes.call hr hroom
      obtain ⟨l₂, hrun, hr₂⟩ := ih hr₁ (hdoes.short hs) (by omega)
      refine ⟨l₂, ?_, hr₂⟩
      simp only [DbList.run, hcall, hrun, Option.bind_eq_bind, Option.bind_some]

/-- Whatever is in the memory before: a run of calls that callers may make returns what it would on lists, in each
list forwards and backwards, and its loops end. -/
theorem replies_of_run {cs : List (Call ρ)} {rs : List (Reply ρ)} (hruns : Runs (fun _ => none) cs rs m) (l : Links ρ)
    {fuel : Nat} (hfuel : cs.length < fuel) : ∃ l', run fuel l cs = some (l', rs) ∧ Rings l' m :=
  hruns.run (rings_none l) (n := 0) (fun _ _ hm => nomatch hm) (by rwa [Nat.zero_add])

theorem replies_of_run_of_four : ∃ l', run 5 ⟨fun a => a + 1, fun a => a + 2⟩
    [.init 0, .pushBack 0 1, .pushBack 0 2, .forEachReverse 0] =
      some (l', [.unit, .unit, .unit, .nodes [2, 1]]) ∧
    Rings l' (Function.update (Function.update (Function.update (Function.update (Function.update (fun _ => none)
      0 (some [])) 1 none) 0 (some [1])) 2 none) 0 (some [1, 2])) := by
  have hfree : ∀ {m : Members Nat} {ms cs : List Nat} {c e : Nat}, e ∉ ms → (∀ d ds, m d = some ds → e ∉ ds) →
      Function.update m 0 (some ms) c = some cs → e ∉ cs := by
    intro m ms cs c e he hm hc
    by_cases hc0 : c = 0
    · rw [hc0, Function.update_self, Option.some.injEq] at hc
      exact hc ▸ he
    · rw [Function.update_of_ne hc0] at hc
      exact hm c cs hc
  refine replies_of_run (.cons (.init 0 (by simp)) (.cons (.pushBack 0 1 [] (by simp) ?_)
    (.cons (.pushBack 0 2 [1] (by simp) ?_) (.cons (.forEachReverse 0 [1, 2] (by simp)) (.nil _))))) _ (by decide)
  · exact fun c cs hc => hfree (by simp) (by simp) hc
  · intro c cs hc
    refine hfree (by simp) (fun d ds hd => ?_) hc
    by_cases hd1 : d = 1
    · rw [hd1, Function.update_self] at hd
      cases hd
    · rw [Function.update_of_ne hd1] at hd
      exact hfree (by simp) (by simp) hd

end Harry.DbList
