import Harry.ThreadMaster
import Mathlib.Algebra.BigOperators.Group.List.Basic
import Mathlib.Algebra.Order.Group.Multiset

/-! The threads of a scheduler stand in lists, each in one place: what `thread_list_add`, `thread_list_add_before` and
`thread_list_delete` make of the lists, and what every function of `lib/thread.c` keeps. Between two steps of a function
one thread may be in no list. -/

namespace Harry.Thread

open Harry.Base

variable {ω : Type}

/-- The threads in the lists, each in one place. -/
structure Rep (s : Master ω) (ls : ListName → List Addr) : Prop where
  linked : ∀ n, Linked s.next s.prev (ls n)
  ends : ∀ n, s.lists n = ⟨(ls n).head?, (ls n).getLast?, (ls n).length⟩
  nodup : ∀ n, (ls n).Nodup
  apart : ∀ n m a, a ∈ ls n → a ∈ ls m → n = m

section Lists

variable {s s' : Master ω} {ls : ListName → List Addr} {n : ListName} {a p : Addr} {as bs l : List Addr}

/-- One list changes; the pointers in the others stay as they are. -/
theorem Rep.replace (h : Rep s ls) (hlinked : Linked s'.next s'.prev l)
    (hlists : s'.lists = Function.update s.lists n ⟨l.head?, l.getLast?, l.length⟩) (hnodup : l.Nodup)
    (hapart : ∀ m, m ≠ n → ∀ b ∈ l, b ∉ ls m)
    (hframe : ∀ m, m ≠ n → ∀ b ∈ ls m, s'.next b = s.next b ∧ s'.prev b = s.prev b) :
    Rep s' (Function.update ls n l) := by
  refine ⟨fun m => ?_, fun m => ?_, fun m => ?_, fun m k b hm hk => ?_⟩
  · by_cases hmn : m = n
    · subst hmn
      rwa [Function.update_self]
    · rw [Function.update_of_ne hmn]
      exact (h.linked m).congr (fun b hb => (hframe m hmn b hb).1) fun b hb => (hframe m hmn b hb).2
  · rw [hlists]
    by_cases hmn : m = n
    · subst hmn
      rw [Function.update_self, Function.update_self]
    · rw [Function.update_of_ne hmn, Function.update_of_ne hmn]
      exact h.ends m
  · by_cases hmn : m = n
    · subst hmn
      rwa [Function.update_self]
    · rw [Function.update_of_ne hmn]
      exact h.nodup m
  · by_cases hmn : m = n <;> by_cases hkn : k = n
    · rw [hmn, hkn]
    · subst hmn
      rw [Function.update_self] at hm
      rw [Function.update_of_ne hkn] at hk
      exact absurd hk (hapart k hkn b hm)
    · subst hkn
      rw [Function.update_self] at hk
      rw [Function.update_of_ne hmn] at hm
      exact absurd hm (hapart m hmn b hk)
    · rw [Function.update_of_ne hmn] at hm
      rw [Function.update_of_ne hkn] at hk
      exact h.apart m k b hm hk

/-- The last thread of one list is not in another one. -/
theorem Rep.getLast?_ne (h : Rep s ls) {m : ListName} (hmn : m ≠ n) (has : ∀ b ∈ as, b ∈ ls n) {b : Addr}
    (hb : b ∈ ls m) : as.getLast? ≠ some b :=
  fun hlast => hmn (h.apart m n b hb (has b (List.mem_of_getLast? hlast)))

theorem Rep.head?_ne (h : Rep s ls) {m : ListName} (hmn : m ≠ n) (hbs : ∀ b ∈ bs, b ∈ ls n) {b : Addr}
    (hb : b ∈ ls m) : bs.head? ≠ some b :=
  fun hhead => hmn (h.apart m n b hb (hbs b (List.mem_of_mem_head? hhead)))

theorem isSome_getLast? {β : Type} (l : List β) (o o' : Option β) :
    (if l.getLast?.isSome then o else o') = if l = [] then o' else o := by
  cases l with
  | nil => rfl
  | cons b l => simp [List.getLast?_cons]

theorem isSome_head? {β : Type} (l : List β) (o o' : Option β) :
    (if l.head?.isSome then o else o') = if l = [] then o' else o := by
  cases l <;> rfl

theorem Rep.add (h : Rep s ls) (hfree : ∀ m, a ∉ ls m) :
    Rep (threadListAdd s n a) (Function.update ls n (ls n ++ [a])) := by
  have hends := h.ends n
  have hne : (ls n).getLast? ≠ some a := getLast?_ne_of_not_mem (hfree n)
  have hnodup : (ls n ++ [a]).Nodup := by
    refine List.nodup_append.mpr ⟨h.nodup n, List.nodup_singleton a, fun b hb c hc hbc => hfree n ?_⟩
    rw [List.mem_singleton] at hc
    rwa [← hc, ← hbc]
  refine h.replace ?_ ?_ hnodup (fun m hmn b hb => ?_) fun m hmn b hb => ?_
  · have hlinked : Linked s.next s.prev (ls n ++ [] ++ []) := by simpa using h.linked n
    have hput := hlinked.put hnodup
    rw [List.head?_nil, updateAt_none] at hput
    simp only [threadListAdd, hends]
    rwa [updateAt_update_comm hne]
  · simp only [threadListAdd, hends, isSome_getLast?]
    congr 2
    · cases ls n <;> rfl
    · rw [List.getLast?_concat]
    · rw [List.length_append, List.length_singleton]
      push_cast
      rfl
  · rw [List.mem_append, List.mem_singleton] at hb
    obtain hb | rfl := hb
    · exact fun hm => hmn (h.apart m n b hm hb)
    · exact hfree m
  · have hba : b ≠ a := fun hba => hfree m (hba ▸ hb)
    have hlast : (ls n).getLast? ≠ some b := h.getLast?_ne hmn (fun _ hc => hc) hb
    simp only [threadListAdd, hends]
    rw [updateAt_of_ne hlast, Function.update_of_ne hba, Function.update_of_ne hba]
    exact ⟨rfl, rfl⟩

theorem Rep.addBefore (h : Rep s ls) (hl : ls n = as ++ p :: bs) (hfree : ∀ m, a ∉ ls m) :
    Rep (threadListAddBefore s n p a) (Function.update ls n (as ++ a :: p :: bs)) := by
  have hends := h.ends n
  have hlinked := h.linked n
  have hnodup := h.nodup n
  have hfree' := hfree n
  rw [hl] at hends hlinked hnodup hfree'
  have hprev := hlinked.neighbours.1
  have has : as.getLast? ≠ some a := getLast?_ne_of_not_mem fun ha => hfree' (by simp [ha])
  have hnodup' : (as ++ a :: p :: bs).Nodup :=
    (List.perm_middle (a := a)).nodup_iff.mpr (List.nodup_cons.mpr ⟨hfree', hnodup⟩)
  have hpa : p ≠ a := fun hpa => hfree' (by simp [hpa])
  refine h.replace ?_ ?_ hnodup' (fun m hmn b hb => ?_) fun m hmn b hb => ?_
  · have hlinked' : Linked s.next s.prev (as ++ [] ++ p :: bs) := by simpa using hlinked
    have hput := hlinked'.put hnodup'
    simp only [threadListAddBefore, hprev]
    rw [updateAt_update_comm has]
    rw [List.head?_cons, updateAt_some, Function.update_comm hpa] at hput
    exact hput
  · simp only [threadListAddBefore, hends, hprev, isSome_getLast?]
    congr 2
    · cases as <;> rfl
    · simp [List.getLast?_append, List.getLast?_cons]
    · simp only [List.length_append, List.length_cons]
      push_cast
      omega
  · have hmem : b = a ∨ b ∈ ls n := by
      rw [hl]
      simpa [or_left_comm] using hb
    obtain rfl | hb := hmem
    · exact hfree m
    · exact fun hm => hmn (h.apart m n b hm hb)
  · have hba : b ≠ a := fun hba => hfree m (hba ▸ hb)
    have hbp : b ≠ p := fun hbp => hmn (h.apart m n b hb (by rw [hl, hbp]; simp))
    have hlast : as.getLast? ≠ some b := h.getLast?_ne hmn (fun c hc => by rw [hl]; simp [hc]) hb
    simp only [threadListAddBefore, hprev]
    rw [updateAt_of_ne hlast, Function.update_of_ne hba, Function.update_of_ne hbp, Function.update_of_ne hba]
    exact ⟨rfl, rfl⟩

theorem Rep.delete (h : Rep s ls) (hl : ls n = as ++ a :: bs) :
    Rep (threadListDelete s n a) (Function.update ls n (as ++ bs)) := by
  have hends := h.ends n
  have hlinked := h.linked n
  have hnodup := h.nodup n
  rw [hl] at hends hlinked hnodup
  obtain ⟨hprev, hnext⟩ := hlinked.neighbours
  have hperm := List.nodup_cons.mp ((List.perm_middle (a := a)).nodup_iff.mp hnodup)
  refine h.replace ?_ ?_ hperm.2 (fun m hmn b hb hm => ?_) fun m hmn b hb => ?_
  · have hremove := hlinked.remove hnodup
    simp only [threadListDelete, hprev, hnext]
    have hne : ∀ b ∈ as ++ bs, b ≠ a := fun b hb hba => hperm.1 (hba ▸ hb)
    refine Seg.congr hremove (fun b hb => ?_) fun b hb => ?_ <;>
      exact Function.update_of_ne (hne b hb) _ _
  · simp only [threadListDelete, hends, hprev, hnext, isSome_getLast?, isSome_head?]
    congr 2
    · cases as <;> rfl
    · cases bs with
      | nil => simp
      | cons b bs => simp [List.getLast?_append, List.getLast?_cons]
    · simp only [List.length_append, List.length_cons]
      push_cast
      omega
  · refine hmn (h.apart m n b hm ?_)
    rw [hl]
    obtain hb | hb := List.mem_append.mp hb <;> simp [hb]
  · have hba : b ≠ a := fun hba => hmn (h.apart m n b hb (by rw [hl, hba]; simp))
    have hlast : as.getLast? ≠ some b := h.getLast?_ne hmn (fun c hc => by rw [hl]; simp [hc]) hb
    have hhead : bs.head? ≠ some b := h.head?_ne hmn (fun c hc => by rw [hl]; simp [hc]) hb
    simp only [threadListDelete, hprev, hnext]
    rw [Function.update_of_ne hba, Function.update_of_ne hba, updateAt_of_ne hlast, updateAt_of_ne hhead]
    exact ⟨rfl, rfl⟩

/-- What is not in the links is nothing to the lists. -/
theorem Rep.congr (h : Rep s ls) (hnext : s'.next = s.next) (hprev : s'.prev = s.prev) (hlists : s'.lists = s.lists) :
    Rep s' ls :=
  ⟨fun n => by rw [hnext, hprev]; exact h.linked n, fun n => by rw [hlists]; exact h.ends n, h.nodup, h.apart⟩

end Lists

/-- Every thread is in the list that its type names, but for one that a function holds. -/
structure Held (s : Master ω) (ls : ListName → List Addr) (o : Option Addr) : Prop extends Rep s ls where
  everywhere : ∀ a, a < s.alloc ↔ (∃ n, a ∈ ls n) ∨ o = some a
  free : ∀ a, o = some a → ∀ n, a ∉ ls n
  named : ∀ n, ∀ a ∈ ls n, (s.type a).list = some n

section Held

variable {s s' : Master ω} {ls : ListName → List Addr} {n : ListName} {o : Option Addr} {a p : Addr}
  {as bs : List Addr}

/-- A list with one thread more has that thread in addition. -/
theorem exists_mem_put {b : Addr} (hl : ls n = as ++ bs) :
    (∃ m, b ∈ Function.update ls n (as ++ a :: bs) m) ↔ (∃ m, b ∈ ls m) ∨ a = b := by
  constructor
  · rintro ⟨m, hm⟩
    by_cases hmn : m = n
    · subst hmn
      rw [Function.update_self, List.mem_append, List.mem_cons] at hm
      obtain hm | rfl | hm := hm
      · exact .inl ⟨m, by rw [hl]; simp [hm]⟩
      · exact .inr rfl
      · exact .inl ⟨m, by rw [hl]; simp [hm]⟩
    · rw [Function.update_of_ne hmn] at hm
      exact .inl ⟨m, hm⟩
  · rintro (⟨m, hm⟩ | rfl)
    · by_cases hmn : m = n
      · subst hmn
        refine ⟨m, ?_⟩
        rw [hl, List.mem_append] at hm
        rw [Function.update_self, List.mem_append, List.mem_cons]
        obtain hm | hm := hm <;> simp [hm]
      · exact ⟨m, by rwa [Function.update_of_ne hmn]⟩
    · exact ⟨n, by simp⟩

theorem Held.setType (h : Held s ls (some a)) (type : ThreadType) : Held (setType s a type) ls (some a) := by
  refine ⟨h.toRep.congr rfl rfl rfl, h.everywhere, h.free, fun n b hb => ?_⟩
  have hba : b ≠ a := fun hba => h.free a rfl n (hba ▸ hb)
  change (Function.update s.type a type b).list = some n
  rw [Function.update_of_ne hba]
  exact h.named n b hb

/-- What is neither a link nor a type is nothing to where the threads are. -/
theorem Held.congr (h : Held s ls o) (hrep : Rep s' ls) (htype : s'.type = s.type) (halloc : s'.alloc = s.alloc) :
    Held s' ls o :=
  ⟨hrep, fun b => by rw [halloc]; exact h.everywhere b, h.free, fun n b hb => by rw [htype]; exact h.named n b hb⟩

/-- A thread leaves its list. -/
theorem Held.delete (h : Held s ls none) (hl : ls n = as ++ a :: bs) :
    Held (threadListDelete s n a) (Function.update ls n (as ++ bs)) (some a) := by
  have hnodup := h.nodup n
  rw [hl] at hnodup
  have hperm := List.nodup_cons.mp ((List.perm_middle (a := a)).nodup_iff.mp hnodup)
  have han : a ∈ ls n := by simp [hl]
  have hfree : ∀ m, a ∉ Function.update ls n (as ++ bs) m := by
    intro m hm
    by_cases hmn : m = n
    · subst hmn
      rw [Function.update_self] at hm
      exact hperm.1 hm
    · rw [Function.update_of_ne hmn] at hm
      exact hmn (h.apart m n a hm han)
  refine ⟨h.toRep.delete hl, fun b => ?_, ?_, fun m b hb => ?_⟩
  · have hself : Function.update ls n (as ++ bs) n = as ++ bs := Function.update_self _ _ _
    have hput := exists_mem_put (a := a) (b := b) hself
    rw [Function.update_idem, ← hl, Function.update_eq_self] at hput
    have hev := h.everywhere b
    rw [hput] at hev
    change b < s.alloc ↔ _
    simpa using hev
  · rintro b hb
    obtain rfl := Option.some.inj hb
    exact hfree
  · by_cases hmn : m = n
    · subst hmn
      rw [Function.update_self] at hb
      refine h.named m b ?_
      rw [hl]
      obtain hb | hb := List.mem_append.mp hb <;> simp [hb]
    · rw [Function.update_of_ne hmn] at hb
      exact h.named m b hb

/-- The thread that a function holds goes to a list. -/
theorem Held.put (h : Held s ls (some a)) (hl : ls n = as ++ bs) (htype : (s.type a).list = some n)
    (hrep : Rep s' (Function.update ls n (as ++ a :: bs))) (hsame : s'.type = s.type) (halloc : s'.alloc = s.alloc) :
    Held s' (Function.update ls n (as ++ a :: bs)) none := by
  refine ⟨hrep, fun b => ?_, fun b hb => (nomatch hb), fun m b hb => ?_⟩
  · rw [halloc, h.everywhere, exists_mem_put hl]
    simp
  · rw [hsame]
    by_cases hmn : m = n
    · subst hmn
      rw [Function.update_self, List.mem_append, List.mem_cons] at hb
      obtain hb | rfl | hb := hb
      · exact h.named m b (by rw [hl]; simp [hb])
      · exact htype
      · exact h.named m b (by rw [hl]; simp [hb])
    · rw [Function.update_of_ne hmn] at hb
      exact h.named m b hb

theorem Held.add (h : Held s ls (some a)) (htype : (s.type a).list = some n) :
    Held (threadListAdd s n a) (Function.update ls n (ls n ++ [a])) none :=
  h.put (List.append_nil _).symm htype (h.toRep.add (h.free a rfl)) rfl rfl

theorem Held.addBefore (h : Held s ls (some a)) (hl : ls n = as ++ p :: bs) (htype : (s.type a).list = some n) :
    Held (threadListAddBefore s n p a) (Function.update ls n (as ++ a :: p :: bs)) none :=
  h.put hl htype (h.toRep.addBefore hl (h.free a rfl)) rfl rfl

theorem head_lists (h : Rep s ls) (n : ListName) : (s.lists n).head = (ls n).head? := by
  rw [h.ends n]

theorem count_lists (h : Rep s ls) (n : ListName) : (s.lists n).count.toNat = (ls n).length := by
  rw [h.ends n]
  rfl

/-- `thread_add_unuse` takes a thread that has just left its list. -/
theorem threadAddUnuse_eq (hnext : s.next a = none) (hprev : s.prev a = none) (htype : s.type a = .unused) :
    threadAddUnuse s a = some (threadListAdd s .unuse a) :=
  if_pos ⟨hnext, hprev, htype⟩

/-- The thread goes from one list to the end of another one, with the type that names that one. -/
def moved (s : Master ω) (n m : ListName) (a : Addr) (type : ThreadType) : Master ω :=
  threadListAdd (setType (threadListDelete s n a) a type) m a

theorem Held.moved {m : ListName} {type : ThreadType} (h : Held s ls none) (hl : ls n = as ++ a :: bs) (hnm : n ≠ m)
    (htype : type.list = some m) :
    Held (moved s n m a type) (Function.update (Function.update ls n (as ++ bs)) m (ls m ++ [a])) none := by
  have hnamed : (Function.update (threadListDelete s n a).type a type a).list = some m := by
    rwa [Function.update_self]
  have hheld := ((h.delete hl).setType type).add (n := m) hnamed
  rwa [Function.update_of_ne hnm.symm] at hheld

theorem threadListDelete_next (s : Master ω) (n : ListName) (a : Addr) : (threadListDelete s n a).next a = none :=
  Function.update_self _ _ _

theorem threadListDelete_prev (s : Master ω) (n : ListName) (a : Addr) : (threadListDelete s n a).prev a = none :=
  Function.update_self _ _ _

/-- A thread that has just left its list goes to the unused ones. -/
theorem threadAddUnuse_delete (s : Master ω) (n : ListName) (a : Addr) :
    threadAddUnuse (setType (threadListDelete s n a) a .unused) a = some (moved s n .unuse a .unused) :=
  threadAddUnuse_eq (threadListDelete_next s n a) (threadListDelete_prev s n a) (Function.update_self _ _ _)

/-- What `thread_get` changes apart from the links. -/
theorem Held.get (h : Held s ls none) (type : ThreadType) (work : ω) :
    ∃ s' a ls', threadGet s type work = (s', a) ∧ Held s' ls' (some a) ∧ (∀ n, n ≠ .unuse → ls' n = ls n) ∧
      (∀ n, n ≠ .unuse → a ∉ ls n) ∧ s'.type a = type ∧ s'.work = Function.update s.work a work ∧
      s'.readfd = s.readfd ∧ (∀ b, b ≠ a → s'.u b = s.u b) := by
  cases hunuse : ls .unuse with
  | nil =>
      have hhead : (s.lists .unuse).head = none := by rw [head_lists h.toRep, hunuse]; rfl
      have hget : threadGet s type work = (setWork (Thread.setType (allocate s) s.alloc type) s.alloc work, s.alloc) := by
        simp only [threadGet, threadTrimHead, hhead]
      have hnew : ∀ n, s.alloc ∉ ls n := fun n hn => Nat.lt_irrefl _ ((h.everywhere s.alloc).mpr (.inl ⟨n, hn⟩))
      have hne : ∀ n, ∀ b ∈ ls n, b ≠ s.alloc := fun n b hb hba => hnew n (hba ▸ hb)
      refine ⟨_, _, ls, hget, ⟨⟨fun n => ?_, h.ends, h.nodup, h.apart⟩, fun b => ?_, ?_, fun n b hb => ?_⟩,
        fun _ _ => rfl, fun n _ => hnew n, Function.update_self _ _ _, rfl, rfl, fun b hb => ?_⟩
      · exact (h.linked n).congr (fun b hb => Function.update_of_ne (hne n b hb) _ _)
          fun b hb => Function.update_of_ne (hne n b hb) _ _
      · have hev := h.everywhere b
        change b < s.alloc + 1 ↔ _
        rw [Option.some.injEq]
        simp only [reduceCtorEq, or_false] at hev
        rw [← hev, Nat.lt_succ_iff_lt_or_eq, eq_comm (a := s.alloc)]
      · rintro b hb
        obtain rfl := Option.some.inj hb
        exact hnew
      · change (Function.update s.type s.alloc type b).list = some n
        rw [Function.update_of_ne (hne n b hb)]
        exact h.named n b hb
      · exact Function.update_of_ne hb _ _
  | cons a l =>
      have hhead : (s.lists .unuse).head = some a := by rw [head_lists h.toRep, hunuse]; rfl
      have hget : threadGet s type work =
          (setWork (Thread.setType (threadListDelete s .unuse a) a type) a work, a) := by
        simp only [threadGet, threadTrimHead, hhead]
      have hheld := (h.delete (show ls .unuse = [] ++ a :: l from hunuse)).setType type
      exact ⟨_, _, _, hget, hheld.congr (hheld.toRep.congr rfl rfl rfl) rfl rfl,
        fun n hn => Function.update_of_ne hn _ _, fun n hn ha => hn (h.apart n .unuse a ha (by simp [hunuse])),
        Function.update_self _ _ _, rfl, rfl, fun b _ => rfl⟩

end Held

/-- The time of a timer. -/
def Content.alarm : Content → Timeval
  | .sands t => t
  | _ => ⟨0, 0⟩

/-- A time is not after another one. -/
def Timeval.le (a b : Timeval) : Prop :=
  a.sec < b.sec ∨ a.sec = b.sec ∧ a.usec ≤ b.usec

instance (a b : Timeval) : Decidable (a.le b) :=
  inferInstanceAs (Decidable (_ ∨ _ ∧ _))

/-- A time that the clock can show. -/
structure Timeval.Valid (t : Timeval) : Prop where
  sec : 0 ≤ t.sec
  long : IsLong t.sec
  usec : 0 ≤ t.usec
  second : t.usec < 1000000

instance (t : Timeval) : Decidable t.Valid :=
  decidable_of_iff (0 ≤ t.sec ∧ IsLong t.sec ∧ 0 ≤ t.usec ∧ t.usec < 1000000)
    ⟨fun h => ⟨h.1, h.2.1, h.2.2.1, h.2.2.2⟩, fun h => ⟨h.sec, h.long, h.usec, h.second⟩⟩

/-- The descriptors that are set are those of the threads in the list, one for each. -/
structure Watched (readfd : FdSet) (u : Addr → Content) (l : List Addr) : Prop where
  readers : ∀ a ∈ l, ∃ fd, InSet fd ∧ u a = .fd fd ∧ readfd fd = true
  single : ∀ a ∈ l, ∀ b ∈ l, u a = u b → a = b
  watched : ∀ fd, readfd fd = true → ∃ a ∈ l, u a = .fd fd

/-- The threads in the list have times, the earlier ones first. -/
structure Alarmed (u : Addr → Content) (l : List Addr) : Prop where
  timers : ∀ a ∈ l, ∃ t : Timeval, t.Valid ∧ u a = .sands t
  sorted : l.Pairwise fun a b => (u a).alarm.le (u b).alarm

section Parts

variable {readfd : FdSet} {u u' : Addr → Content} {l as bs : List Addr} {a : Addr} {fd : Int} {t t' : Timeval}

theorem Timeval.le_trans {t t' t'' : Timeval} (h : t.le t') (h' : t'.le t'') : t.le t'' := by
  unfold Timeval.le at *
  omega

theorem Timeval.le_of_not {t t' : Timeval} (h : ¬ t.le t') : t'.le t := by
  unfold Timeval.le at *
  omega

/-- `timeval_cmp` on times of the clock. -/
theorem exists_timevalCmp (ht : t.Valid) (ht' : t'.Valid) :
    ∃ d, timevalCmp t t' = some d ∧ (d ≤ 0 ↔ t.le t') ∧ (d < 0 ↔ ¬ t'.le t) := by
  obtain ⟨h1, ⟨h2, h3⟩, h4, h5⟩ := ht
  obtain ⟨h1', ⟨h2', h3'⟩, h4', h5'⟩ := ht'
  by_cases heq : t.sec = t'.sec
  · refine ⟨t.usec - t'.usec, ?_, ?_, ?_⟩
    · rw [timevalCmp, if_pos heq, long, if_pos ⟨by omega, by omega⟩]
    · unfold Timeval.le
      omega
    · unfold Timeval.le
      omega
  · refine ⟨t.sec - t'.sec, ?_, ?_, ?_⟩
    · rw [timevalCmp, if_neg heq, long, if_pos ⟨by omega, by omega⟩]
    · unfold Timeval.le
      omega
    · unfold Timeval.le
      omega

/-- `timeval_adjust` has no second to carry over where the parts of a second are in range. -/
theorem timevalAdjust_eq (hlow : 0 ≤ t.usec) (hhigh : t.usec < 1000000) :
    timevalAdjust t = if t.sec < 0 then ⟨0, 0⟩ else t := by
  have hover : ∀ fuel, carryOver fuel t = t := by
    intro fuel
    cases fuel with
    | zero => rfl
    | succ fuel => rw [carryOver, if_neg (by omega)]
  have hback : ∀ fuel, carryBack fuel t = t := by
    intro fuel
    cases fuel with
    | zero => rfl
    | succ fuel => rw [carryBack, if_neg (by omega)]
  simp only [timevalAdjust, hover, hback]

theorem valid_timevalAdjust (hsec : IsLong t.sec) (hlow : 0 ≤ t.usec) (hhigh : t.usec < 1000000) :
    (timevalAdjust t).Valid := by
  rw [timevalAdjust_eq hlow hhigh]
  split
  · exact ⟨Int.le_refl _, by decide, Int.le_refl _, by decide⟩
  · exact ⟨by omega, hsec, hlow, hhigh⟩

theorem Watched.congr (h : Watched readfd u l) (hu : ∀ b ∈ l, u' b = u b) : Watched readfd u' l := by
  refine ⟨fun b hb => by rw [hu b hb]; exact h.readers b hb, fun b hb c hc hbc => ?_, fun fd hfd => ?_⟩
  · rw [hu b hb, hu c hc] at hbc
    exact h.single b hb c hc hbc
  · obtain ⟨b, hb, hbu⟩ := h.watched fd hfd
    exact ⟨b, hb, by rw [hu b hb, hbu]⟩

/-- One more thread, for a descriptor that is not set yet. -/
theorem Watched.add (h : Watched readfd u l) (hin : InSet fd) (hfd : readfd fd = false) (hu : u a = .fd fd) :
    Watched (Function.update readfd fd true) u (l ++ [a]) := by
  have hne : ∀ b ∈ l, ∀ n, u b = .fd n → n ≠ fd := by
    rintro b hb n hn rfl
    obtain ⟨m, -, hm, hset⟩ := h.readers b hb
    rw [hm, Content.fd.injEq] at hn
    rw [hn, hfd] at hset
    cases hset
  refine ⟨fun b hb => ?_, fun b hb c hc hbc => ?_, fun n hn => ?_⟩
  · rw [List.mem_append, List.mem_singleton] at hb
    obtain hb | rfl := hb
    · obtain ⟨n, hin', hn, hset⟩ := h.readers b hb
      exact ⟨n, hin', hn, by rwa [Function.update_of_ne (hne b hb n hn)]⟩
    · exact ⟨fd, hin, hu, Function.update_self _ _ _⟩
  · rw [List.mem_append, List.mem_singleton] at hb hc
    obtain hb | rfl := hb <;> obtain hc | rfl := hc
    · exact h.single b hb c hc hbc
    · exact absurd rfl (hne b hb fd (hbc.trans hu))
    · exact absurd rfl (hne c hc fd (hbc.symm.trans hu))
    · rfl
  · by_cases hnfd : n = fd
    · exact ⟨a, by simp, by rw [hnfd, hu]⟩
    · rw [Function.update_of_ne hnfd] at hn
      obtain ⟨b, hb, hbu⟩ := h.watched n hn
      exact ⟨b, by simp [hb], hbu⟩

/-- A thread less, and its descriptor cleared. -/
theorem Watched.delete (h : Watched readfd u (as ++ a :: bs)) (hnodup : (as ++ a :: bs).Nodup) (hu : u a = .fd fd) :
    Watched (Function.update readfd fd false) u (as ++ bs) := by
  have hperm := List.nodup_cons.mp ((List.perm_middle (a := a)).nodup_iff.mp hnodup)
  have hsub : ∀ b ∈ as ++ bs, b ∈ as ++ a :: bs := by
    intro b hb
    obtain hb | hb := List.mem_append.mp hb <;> simp [hb]
  have hne : ∀ b ∈ as ++ bs, u b ≠ .fd fd := by
    intro b hb hbu
    have hba := h.single b (hsub b hb) a (by simp) (hbu.trans hu.symm)
    exact hperm.1 (hba ▸ hb)
  refine ⟨fun b hb => ?_, fun b hb c hc => h.single b (hsub b hb) c (hsub c hc), fun n hn => ?_⟩
  · obtain ⟨n, hin, hn, hset⟩ := h.readers b (hsub b hb)
    have hnfd : n ≠ fd := fun hnfd => hne b hb (hnfd ▸ hn)
    exact ⟨n, hin, hn, by rwa [Function.update_of_ne hnfd]⟩
  · have hnfd : n ≠ fd := by
      rintro rfl
      rw [Function.update_self] at hn
      cases hn
    rw [Function.update_of_ne hnfd] at hn
    obtain ⟨b, hb, hbu⟩ := h.watched n hn
    refine ⟨b, ?_, hbu⟩
    have hba : b ≠ a := by
      rintro rfl
      rw [hu, Content.fd.injEq] at hbu
      exact hnfd hbu.symm
    simpa [hba] using hb

theorem Alarmed.congr (h : Alarmed u l) (hu : ∀ b ∈ l, u' b = u b) : Alarmed u' l := by
  refine ⟨fun b hb => by rw [hu b hb]; exact h.timers b hb, h.sorted.imp_of_mem fun {b c} hb hc hbc => ?_⟩
  rw [hu b hb, hu c hc]
  exact hbc

/-- A thread less. -/
theorem Alarmed.sublist (h : Alarmed u l) (hsub : as.Sublist l) : Alarmed u as :=
  ⟨fun b hb => h.timers b (hsub.subset hb), h.sorted.sublist hsub⟩

/-- A thread more, behind those that run out earlier and in front of the others. -/
theorem Alarmed.insert (h : Alarmed u (as ++ bs)) (ht : t.Valid) (hu : u a = .sands t)
    (has : ∀ b ∈ as, (u b).alarm.le t) (hbs : ∀ b ∈ bs.head?, t.le (u b).alarm) : Alarmed u (as ++ a :: bs) := by
  have hsorted := List.pairwise_append.mp h.sorted
  have halarm : (u a).alarm = t := by rw [hu]; rfl
  have hbehind : ∀ b ∈ bs, t.le (u b).alarm := by
    cases bs with
    | nil => exact fun b hb => nomatch hb
    | cons c bs =>
        intro b hb
        have hc := hbs c rfl
        obtain rfl | hb := List.mem_cons.mp hb
        · exact hc
        · exact Timeval.le_trans hc ((List.pairwise_cons.mp hsorted.2.1).1 b hb)
  refine ⟨fun b hb => ?_, List.pairwise_append.mpr ⟨hsorted.1, List.pairwise_cons.mpr ⟨fun b hb => ?_, hsorted.2.1⟩,
    fun b hb c hc => ?_⟩⟩
  · rw [List.mem_append, List.mem_cons] at hb
    obtain hb | rfl | hb := hb
    · exact h.timers b (by simp [hb])
    · exact ⟨t, ht, hu⟩
    · exact h.timers b (by simp [hb])
  · rw [halarm]
    exact hbehind b hb
  · obtain rfl | hc := List.mem_cons.mp hc
    · rw [halarm]
      exact has b hb
    · exact hsorted.2.2 b hb c hc

end Parts

/-! ### What every function keeps -/

/-- The threads are where they belong, and the descriptors and the timers are in order. -/
structure Sound (s : Master ω) (ls : ListName → List Addr) : Prop extends Held s ls none where
  watched : Watched s.readfd s.u (ls .read)
  alarmed : Alarmed s.u (ls .timer)
  writers : ls .write = []
  background : ls .background = []

/-- The lists of the threads that are to run. -/
def waiting : List ListName :=
  [.read, .write, .timer, .event, .ready, .background]

/-- The thread has been added and has not been run or cancelled. -/
def Scheduled (s : Master ω) (thread : Addr) : Prop :=
  thread < s.alloc ∧ s.type thread ≠ .unused

instance (s : Master ω) (thread : Addr) : Decidable (Scheduled s thread) :=
  inferInstanceAs (Decidable (_ ∧ _))

/-- What the threads that wait are to do. -/
def pending (work : Addr → ω) (ls : ListName → List Addr) : Multiset ω :=
  (waiting.map fun n => ((ls n).map work : Multiset ω)).sum

/-- A thread is put in a list, with something to do. -/
def Enters (s : Master ω) (ls : ListName → List Addr) (s' : Master ω) (ls' : ListName → List Addr) (n : ListName)
    (work : ω) : Prop :=
  ∃ a as bs, ls n = as ++ bs ∧ ls' n = as ++ a :: bs ∧ (∀ m, m ≠ n → m ≠ .unuse → ls' m = ls m) ∧
    (∀ m, m ≠ .unuse → a ∉ ls m) ∧ s'.work = Function.update s.work a work

/-- A thread is taken out of a list. -/
def Leaves (s : Master ω) (ls : ListName → List Addr) (s' : Master ω) (ls' : ListName → List Addr) (n : ListName)
    (a : Addr) : Prop :=
  ∃ as bs, ls n = as ++ a :: bs ∧ ls' n = as ++ bs ∧ (∀ m, m ≠ n → m ≠ .unuse → ls' m = ls m) ∧ s'.work = s.work

section Sound

variable {s s' : Master ω} {ls ls' : ListName → List Addr} {n : ListName} {a : Addr} {as bs : List Addr} {work : ω}

/-- A thread that is scheduled is in one of the lists that wait. -/
theorem Sound.exists_mem (h : Sound s ls) {thread : Addr} (hs : Scheduled s thread) :
    ∃ n, thread ∈ ls n ∧ n ≠ .unuse := by
  obtain ⟨n, hn⟩ := ((h.everywhere thread).mp hs.1).resolve_right (by simp)
  refine ⟨n, hn, ?_⟩
  rintro rfl
  have hnamed := h.named .unuse thread hn
  refine hs.2 ?_
  cases htype : s.type thread <;> rw [htype] at hnamed <;> simp [ThreadType.list] at hnamed ⊢

theorem map_insert (f : Addr → ω) :
    ((as ++ a :: bs).map f : Multiset ω) = f a ::ₘ ((as ++ bs).map f : Multiset ω) := by
  rw [List.map_append, List.map_cons, List.map_append, Multiset.cons_coe]
  exact Multiset.coe_eq_coe.mpr List.perm_middle

/-- What waits, where one list changes by a thread. -/
theorem pending_cons {f : Addr → ω} (hn : n ≠ .unuse) (hl : ls n = as ++ bs) (hl' : ls' n = as ++ a :: bs)
    (hother : ∀ m, m ≠ n → m ≠ .unuse → ls' m = ls m) : pending f ls' = f a ::ₘ pending f ls := by
  have hmem : n ∈ waiting := by
    cases n <;> first | exact absurd rfl hn | decide
  have hrest : (waiting.erase n).map (fun m => ((ls' m).map f : Multiset ω)) =
      (waiting.erase n).map fun m => ((ls m).map f : Multiset ω) := by
    refine List.map_congr_left fun m hm => ?_
    obtain ⟨hmn, hm⟩ := ((show waiting.Nodup by decide).mem_erase_iff).mp hm
    have hunuse : m ≠ .unuse := by
      rintro rfl
      exact absurd hm (by decide)
    rw [hother m hmn hunuse]
  rw [pending, pending, ← List.sum_map_erase _ hmem, ← List.sum_map_erase _ hmem, hrest, hl, hl', map_insert,
    Multiset.cons_add]

theorem pending_update {f : Addr → ω} (hfree : ∀ m, m ≠ .unuse → a ∉ ls m) :
    pending (Function.update f a work) ls = pending f ls := by
  refine congrArg List.sum (List.map_congr_left fun m hm => ?_)
  have hunuse : m ≠ .unuse := by
    rintro rfl
    exact absurd hm (by decide)
  congr 1
  refine List.map_congr_left fun b hb => Function.update_of_ne ?_ _ _
  rintro rfl
  exact hfree m hunuse hb

theorem Enters.pending (h : Enters s ls s' ls' n work) (hn : n ≠ .unuse) :
    pending s'.work ls' = work ::ₘ pending s.work ls := by
  obtain ⟨a, as, bs, hl, hl', hother, hfree, hwork⟩ := h
  rw [pending_cons hn hl hl' hother, hwork, Function.update_self, pending_update hfree]

theorem Leaves.pending (h : Leaves s ls s' ls' n a) (hn : n ≠ .unuse) :
    pending s.work ls = s.work a ::ₘ pending s'.work ls' := by
  obtain ⟨as, bs, hl, hl', hother, hwork⟩ := h
  rw [hwork]
  exact pending_cons hn hl' hl fun m hmn hm => (hother m hmn hm).symm

/-- `funcname_thread_add_read` on a descriptor that is not set. -/
theorem Sound.addRead (h : Sound s ls) (work : ω) {fd : Int} (hin : InSet fd) (hfd : s.readfd fd = false) :
    ∃ s' a ls', threadAddRead s work fd = some (s', some a) ∧ Sound s' ls' ∧ Enters s ls s' ls' .read work := by
  obtain ⟨s₁, a, ls₁, hget, hheld, hls, hfree, htype, hwork, hreadfd, hu⟩ := h.toHeld.get .read work
  have hother : ∀ m, m ≠ .unuse → ∀ b ∈ ls m, Function.update s₁.u a (.fd fd) b = s.u b := by
    intro m hm b hb
    have hba : b ≠ a := fun hba => hfree m hm (hba ▸ hb)
    rw [Function.update_of_ne hba, hu b hba]
  have hread : ls₁ .read = ls .read := hls .read (by decide)
  have hheld₂ : Held (setContent { s₁ with readfd := Function.update s₁.readfd fd true } a (.fd fd)) ls₁ (some a) :=
    hheld.congr (hheld.toRep.congr rfl rfl rfl) rfl rfl
  have hheld₃ := hheld₂.add (n := .read) (show (s₁.type a).list = some .read by rw [htype]; rfl)
  refine ⟨_, a, _, ?_, ⟨hheld₃, ?_, ?_, ?_, ?_⟩, a, ls .read, [], (List.append_nil _).symm, ?_, ?_, hfree, hwork⟩
  · simp only [threadAddRead, fdIsset, fdSet, if_pos hin, hfd, hget]
    rfl
  · rw [Function.update_self, hread]
    change Watched (Function.update s₁.readfd fd true) (Function.update s₁.u a (.fd fd)) _
    rw [hreadfd]
    exact (h.watched.congr (hother .read (by decide))).add hin hfd (Function.update_self _ _ _)
  · rw [Function.update_of_ne (by decide), hls .timer (by decide)]
    exact h.alarmed.congr (hother .timer (by decide))
  · rw [Function.update_of_ne (by decide), hls .write (by decide), h.writers]
  · rw [Function.update_of_ne (by decide), hls .background (by decide), h.background]
  · rw [Function.update_self, hread]
  · intro m hm hm'
    rw [Function.update_of_ne hm, hls m hm']

/-- `funcname_thread_add_read` on a descriptor that is set. -/
theorem addRead_set {fd : Int} (hin : InSet fd) (hfd : s.readfd fd = true) :
    threadAddRead s work fd = some (s, none) := by
  simp only [threadAddRead, fdIsset, if_pos hin, hfd]
  rfl

/-- `funcname_thread_add_event`. -/
theorem Sound.addEvent (h : Sound s ls) (work : ω) (val : Int) :
    ∃ s' a ls', threadAddEvent s work val = (s', a) ∧ Sound s' ls' ∧ Enters s ls s' ls' .event work := by
  obtain ⟨s₁, a, ls₁, hget, hheld, hls, hfree, htype, hwork, hreadfd, hu⟩ := h.toHeld.get .event work
  have hother : ∀ m, m ≠ .unuse → ∀ b ∈ ls m, Function.update s₁.u a (.val val) b = s.u b := by
    intro m hm b hb
    have hba : b ≠ a := fun hba => hfree m hm (hba ▸ hb)
    rw [Function.update_of_ne hba, hu b hba]
  have hheld₂ : Held (setContent s₁ a (.val val)) ls₁ (some a) := hheld.congr (hheld.toRep.congr rfl rfl rfl) rfl rfl
  have hheld₃ := hheld₂.add (n := .event) (show (s₁.type a).list = some .event by rw [htype]; rfl)
  refine ⟨_, a, _, by rw [threadAddEvent, hget], ⟨hheld₃, ?_, ?_, ?_, ?_⟩, a, ls .event, [],
    (List.append_nil _).symm, ?_, ?_, hfree, hwork⟩
  · rw [Function.update_of_ne (by decide), hls .read (by decide)]
    change Watched s₁.readfd (Function.update s₁.u a (.val val)) _
    rw [hreadfd]
    exact h.watched.congr (hother .read (by decide))
  · rw [Function.update_of_ne (by decide), hls .timer (by decide)]
    exact h.alarmed.congr (hother .timer (by decide))
  · rw [Function.update_of_ne (by decide), hls .write (by decide), h.writers]
  · rw [Function.update_of_ne (by decide), hls .background (by decide), h.background]
  · rw [Function.update_self, hls .event (by decide)]
  · intro m hm hm'
    rw [Function.update_of_ne hm, hls m hm']

/-- The search for the place of a timer stops at the first one that does not run out before it. -/
theorem findPoint_eq {t : Timeval} (ht : t.Valid) {l : List Addr} (hlinked : Seg s.next s.prev none l none)
    (htimers : ∀ a ∈ l, ∃ t : Timeval, t.Valid ∧ s.u a = .sands t) :
    ∃ as bs, l = as ++ bs ∧ findPoint s t l.length l.head? = some bs.head? ∧
      (∀ b ∈ as, (s.u b).alarm.le t) ∧ ∀ b ∈ bs.head?, t.le (s.u b).alarm := by
  suffices hgen : ∀ before : Option Addr, Seg s.next s.prev before l none → ∃ as bs, l = as ++ bs ∧
      findPoint s t l.length l.head? = some bs.head? ∧
      (∀ b ∈ as, (s.u b).alarm.le t) ∧ ∀ b ∈ bs.head?, t.le (s.u b).alarm from hgen none hlinked
  clear hlinked
  induction l with
  | nil => exact fun _ _ => ⟨[], [], rfl, rfl, fun b hb => (nomatch hb), fun b hb => (nomatch hb)⟩
  | cons c l ih =>
      intro before hseg
      obtain ⟨-, hnext, hrest⟩ := hseg
      obtain ⟨tc, htc, hc⟩ := htimers c (by simp)
      obtain ⟨d, hd, hle, -⟩ := exists_timevalCmp ht htc
      have hstep : findPoint s t (c :: l).length (c :: l).head? =
          if d ≤ 0 then some (some c) else findPoint s t l.length l.head? := by
        have hnext' : s.next c = l.head? := by rw [hnext, Option.or_none]
        simp only [List.length_cons, List.head?_cons, findPoint, hc, Content.sands?, hnext', Option.bind_eq_bind,
          Option.bind_some, hd]
        rfl
      have halarm : (s.u c).alarm = tc := by rw [hc]; rfl
      by_cases hstop : d ≤ 0
      · refine ⟨[], c :: l, rfl, by rw [hstep, if_pos hstop]; rfl, fun b hb => (nomatch hb), ?_⟩
        rintro b hb
        obtain rfl : c = b := by simpa using hb
        rw [halarm]
        exact hle.mp hstop
      · obtain ⟨as, bs, rfl, hfind, has, hbs⟩ := ih (fun a ha => htimers a (by simp [ha])) (some c) hrest
        refine ⟨c :: as, bs, rfl, by rw [hstep, if_neg hstop, hfind], fun b hb => ?_, hbs⟩
        obtain rfl | hb := List.mem_cons.mp hb
        · rw [halarm]
          exact Timeval.le_of_not fun hno => hstop (hle.mpr hno)
        · exact has b hb

/-- When a timer of some seconds runs out. -/
def expiry (clock : Timeval) (timer : Int) : Timeval :=
  timevalAdjust ⟨clock.sec + timer, clock.usec⟩

/-- `funcname_thread_add_timer`. -/
theorem Sound.addTimer (h : Sound s ls) (work : ω) {timer : Int} {clock : Timeval} (hclock : clock.Valid)
    (hfits : IsLong (clock.sec + timer)) :
    ∃ s' a ls', threadAddTimer s work timer clock = some (s', a) ∧ Sound s' ls' ∧ Enters s ls s' ls' .timer work := by
  obtain ⟨s₁, a, ls₁, hget, hheld, hls, hfree, htype, hwork, hreadfd, hu⟩ := h.toHeld.get .timer work
  have hvalid : (expiry clock timer).Valid := valid_timevalAdjust hfits hclock.usec hclock.second
  have husec : IsLong clock.usec := by
    have := hclock.usec
    have := hclock.second
    exact ⟨by omega, by omega⟩
  have hother : ∀ m, m ≠ .unuse → ∀ b ∈ ls m, Function.update s₁.u a (.sands (expiry clock timer)) b = s.u b := by
    intro m hm b hb
    have hba : b ≠ a := fun hba => hfree m hm (hba ▸ hb)
    rw [Function.update_of_ne hba, hu b hba]
  have htimer : ls₁ .timer = ls .timer := hls .timer (by decide)
  have hheld₂ : Held (setContent s₁ a (.sands (expiry clock timer))) ls₁ (some a) :=
    hheld.congr (hheld.toRep.congr rfl rfl rfl) rfl rfl
  have halarmed : Alarmed (setContent s₁ a (.sands (expiry clock timer))).u (ls₁ .timer) := by
    rw [htimer]
    exact h.alarmed.congr (hother .timer (by decide))
  obtain ⟨as, bs, hl, hfind, has, hbs⟩ := findPoint_eq hvalid (hheld₂.linked .timer) halarmed.timers
  have hu' : (setContent s₁ a (.sands (expiry clock timer))).u a = .sands (expiry clock timer) :=
    Function.update_self _ _ _
  have hsorted : Alarmed (setContent s₁ a (.sands (expiry clock timer))).u (as ++ a :: bs) := by
    rw [hl] at halarmed
    exact halarmed.insert hvalid hu' has hbs
  rw [← count_lists hheld₂.toRep, ← head_lists hheld₂.toRep] at hfind
  have hadd : threadAddTimer s work timer clock =
      some (bs.head?.elim (threadListAdd (setContent s₁ a (.sands (expiry clock timer))) .timer a)
        (fun tt => threadListAddBefore (setContent s₁ a (.sands (expiry clock timer))) .timer tt a), a) := by
    have hsec : long (clock.sec + timer) = some (clock.sec + timer) := if_pos hfits
    have husec' : long clock.usec = some clock.usec := if_pos husec
    simp only [threadAddTimer, threadAddTimerTimeval, hget, true_or, not_true, if_false, if_true, hsec, husec',
      Option.bind_eq_bind, Option.bind_some, Int.add_zero]
    rw [expiry] at hfind
    rw [hfind]
    cases bs <;> rfl
  -- the thread stands between `as` and `bs`
  have hplaced : ∃ s', threadAddTimer s work timer clock = some (s', a) ∧
      Held s' (Function.update ls₁ .timer (as ++ a :: bs)) none ∧
      s'.u = (setContent s₁ a (.sands (expiry clock timer))).u ∧ s'.readfd = s₁.readfd ∧ s'.work = s₁.work := by
    have htype' : (s₁.type a).list = some .timer := by rw [htype]; rfl
    cases bs with
    | nil =>
        have has : ls₁ .timer = as := by simpa using hl
        rw [List.head?_nil] at hadd
        have hheld₃ := hheld₂.add htype'
        rw [has] at hheld₃
        exact ⟨_, hadd, hheld₃, rfl, rfl, rfl⟩
    | cons p bs =>
        rw [List.head?_cons] at hadd
        exact ⟨_, hadd, hheld₂.addBefore hl htype', rfl, rfl, rfl⟩
  obtain ⟨s', hs', hheld', hu'', hreadfd', hwork'⟩ := hplaced
  refine ⟨s', a, _, hs', ⟨hheld', ?_, ?_, ?_, ?_⟩, a, as, bs, htimer.symm.trans hl, ?_, ?_, hfree, hwork'.trans hwork⟩
  · rw [Function.update_of_ne (by decide), hls .read (by decide), hreadfd', hreadfd, hu'']
    exact h.watched.congr (hother .read (by decide))
  · rw [Function.update_self, hu'']
    exact hsorted
  · rw [Function.update_of_ne (by decide), hls .write (by decide), h.writers]
  · rw [Function.update_of_ne (by decide), hls .background (by decide), h.background]
  · rw [Function.update_self]
  · intro m hm hm'
    rw [Function.update_of_ne hm, hls m hm']

/-- A timer for a time that is no `long` has no result. -/
theorem addTimer_overflow {timer : Int} {clock : Timeval} (hfits : ¬ IsLong (clock.sec + timer)) :
    threadAddTimer s work timer clock = none := by
  have hsec : long (clock.sec + timer) = none := if_neg hfits
  simp only [threadAddTimer, threadAddTimerTimeval, hsec]
  rfl

/-- A thread that waits for no descriptor goes to another list. -/
theorem Sound.moved {m : ListName} {type : ThreadType} (h : Sound s ls) (hl : ls n = as ++ a :: bs) (hnm : n ≠ m)
    (htype : type.list = some m) (hn : n ≠ .read) (hm : m = .ready ∨ m = .unuse) :
    Sound (moved s n m a type) (Function.update (Function.update ls n (as ++ bs)) m (ls m ++ [a])) := by
  have hother : ∀ k, k ≠ n → k ≠ .ready → k ≠ .unuse →
      Function.update (Function.update ls n (as ++ bs)) m (ls m ++ [a]) k = ls k := by
    intro k hk hready hunuse
    have hkm : k ≠ m := by
      rintro rfl
      exact hm.elim hready hunuse
    rw [Function.update_of_ne hkm, Function.update_of_ne hk]
  have hempty : ∀ k, ls k = [] → k ≠ n := by
    rintro k hk rfl
    rw [hk] at hl
    simp at hl
  refine ⟨h.toHeld.moved hl hnm htype, ?_, ?_, ?_, ?_⟩
  · rw [hother .read hn.symm (by decide) (by decide)]
    exact h.watched
  · by_cases htimer : n = .timer
    · subst htimer
      have hm' : ListName.timer ≠ m := by
        rintro rfl
        exact hnm rfl
      rw [Function.update_of_ne hm', Function.update_self]
      refine h.alarmed.sublist ?_
      rw [hl]
      exact List.Sublist.append (List.Sublist.refl _) (List.sublist_cons_self _ _)
    · rw [hother .timer (Ne.symm htimer) (by decide) (by decide)]
      exact h.alarmed
  · rw [hother .write (hempty .write h.writers) (by decide) (by decide), h.writers]
  · rw [hother .background (hempty .background h.background) (by decide) (by decide), h.background]

/-- A thread that waits for a descriptor goes to another list, and the descriptor is cleared. -/
theorem Sound.movedReader {fd : Int} (h : Sound s ls) (m : ListName) (type : ThreadType)
    (hl : ls .read = as ++ a :: bs) (htype : type.list = some m) (hm : m = .ready ∨ m = .unuse) (hfd : s.u a = .fd fd) :
    Sound (Thread.moved { s with readfd := Function.update s.readfd fd false } .read m a type)
      (Function.update (Function.update ls .read (as ++ bs)) m (ls m ++ [a])) := by
  have hnm : ListName.read ≠ m := by
    rintro rfl
    exact hm.elim (by decide) (by decide)
  have hother : ∀ k, k ≠ .read → k ≠ .ready → k ≠ .unuse →
      Function.update (Function.update ls .read (as ++ bs)) m (ls m ++ [a]) k = ls k := by
    intro k hk hready hunuse
    have hkm : k ≠ m := by
      rintro rfl
      exact hm.elim hready hunuse
    rw [Function.update_of_ne hkm, Function.update_of_ne hk]
  have hheld : Held { s with readfd := Function.update s.readfd fd false } ls none :=
    h.toHeld.congr (h.toRep.congr rfl rfl rfl) rfl rfl
  have hnodup := h.nodup .read
  have hwatched := h.watched
  rw [hl] at hnodup hwatched
  refine ⟨hheld.moved hl hnm htype, ?_, ?_, ?_, ?_⟩
  · rw [Function.update_of_ne hnm, Function.update_self]
    exact hwatched.delete hnodup hfd
  · rw [hother .timer (by decide) (by decide) (by decide)]
    exact h.alarmed
  · rw [hother .write (by decide) (by decide) (by decide), h.writers]
  · rw [hother .background (by decide) (by decide) (by decide), h.background]

theorem leaves_unuse {s₀ : Master ω} {type : ThreadType} (hl : ls n = as ++ a :: bs) (hn : n ≠ .unuse)
    (hwork : s₀.work = s.work) :
    Leaves s ls (Thread.moved s₀ n .unuse a type)
      (Function.update (Function.update ls n (as ++ bs)) .unuse (ls .unuse ++ [a])) n a := by
  refine ⟨as, bs, hl, by rw [Function.update_of_ne hn, Function.update_self], fun m hm hm' => ?_, hwork⟩
  rw [Function.update_of_ne hm', Function.update_of_ne hm]

/-- `thread_cancel` of a thread that is to run. -/
theorem Sound.cancel (h : Sound s ls) (ha : a ∈ ls n) (hn : n ≠ .unuse) :
    ∃ s' ls', threadCancel s a = some s' ∧ Sound s' ls' ∧ Leaves s ls s' ls' n a := by
  obtain ⟨as, bs, hl⟩ := List.append_of_mem ha
  have htype := h.named n a ha
  have hunread : ∀ type : ThreadType, s.type a = type → type.list = some n → n ≠ .read → n ≠ .write → n ≠ .background →
      clearFd s a = some s → threadCancel s a = some (Thread.moved s n .unuse a .unused) := by
    intro type hs hlist hread hwrite hback hclear
    cases type <;> simp only [ThreadType.list, Option.some.injEq, reduceCtorEq] at hlist <;>
      first
      | exact absurd hlist.symm hread
      | exact absurd hlist.symm hwrite
      | exact absurd hlist.symm hback
      | exact absurd hlist.symm hn
      | subst hlist
        simp only [threadCancel, hs, hclear, Option.bind_eq_bind, Option.bind_some, ThreadType.list]
        exact threadAddUnuse_delete s _ a
  have hempty : ∀ k, ls k = [] → n ≠ k := by
    rintro k hk rfl
    rw [hk] at ha
    cases ha
  by_cases hread : n = .read
  · subst hread
    have hs : s.type a = .read := by
      cases hs : s.type a <;> rw [hs] at htype <;> simp [ThreadType.list] at htype ⊢
    obtain ⟨fd, hin, hfd, hset⟩ := h.watched.readers a ha
    refine ⟨_, _, ?_, h.movedReader .unuse .unused hl rfl (.inr rfl) hfd,
      leaves_unuse hl hn rfl⟩
    simp only [threadCancel, hs, clearFd, hfd, Content.fd?, fdIsset, fdClr, if_pos hin, hset, Option.bind_eq_bind,
      Option.bind_some, if_true, ThreadType.list]
    exact threadAddUnuse_delete _ .read a
  · have hclear : clearFd s a = some s := by
      have hwrite := hempty .write h.writers
      cases hs : s.type a <;> rw [hs] at htype <;> simp [ThreadType.list] at htype <;>
        first
        | exact absurd htype.symm hread
        | exact absurd htype.symm hwrite
        | simp only [clearFd, hs]
    refine ⟨_, _, hunread _ rfl htype hread (hempty .write h.writers) (hempty .background h.background) hclear,
      h.moved hl hn rfl hread (.inr rfl), leaves_unuse hl hn rfl⟩

/-- `thread_run` of the first thread of a list. -/
theorem Sound.run {l : List Addr} (h : Sound s ls) (hl : ls n = [] ++ a :: l) (hn : n ≠ .unuse) (hread : n ≠ .read) :
    ∃ s' ls' fetch, threadRun (threadListDelete s n a) a = some (s', fetch) ∧ fetch.work = s.work a ∧ Sound s' ls' ∧
      Leaves s ls s' ls' n a := by
  refine ⟨Thread.moved s n .unuse a .unused, _, ⟨s.type a, s.u a, s.work a⟩, ?_, rfl,
    h.moved hl hn rfl hread (.inr rfl), leaves_unuse hl hn rfl⟩
  rw [threadRun, threadAddUnuse_delete]
  rfl

/-- A thread that goes to the ready list waits all the same. -/
theorem pending_ready {f : Addr → ω} (hl : ls n = as ++ a :: bs) (hn : n ≠ .unuse) (hready : n ≠ .ready) :
    pending f (Function.update (Function.update ls n (as ++ bs)) .ready (ls .ready ++ [a])) = pending f ls := by
  have hout : pending f ls = f a ::ₘ pending f (Function.update ls n (as ++ bs)) :=
    pending_cons hn (Function.update_self _ _ _) hl fun m hm _ => (Function.update_of_ne hm _ _).symm
  rw [hout]
  have hready' : Function.update ls n (as ++ bs) .ready = ls .ready ++ [] := by
    rw [Function.update_of_ne hready.symm, List.append_nil]
  exact pending_cons (by decide) hready' (Function.update_self _ _ _) fun m hm _ => Function.update_of_ne hm _ _

/-- `thread_timer_process` without a timer that has run out. -/
theorem Sound.timerProcess_none (h : Sound s ls) {now : Timeval} (hnow : now.Valid)
    (hdue : ∀ a ∈ (ls .timer).head?, ¬ (s.u a).alarm.le now) : threadTimerProcess s .timer now = some (s, 0) := by
  rw [threadTimerProcess, head_lists h.toRep]
  cases hl : ls .timer with
  | nil => rfl
  | cons a l =>
      obtain ⟨t, ht, hu⟩ := h.alarmed.timers a (by simp [hl])
      obtain ⟨d, hd, -, hlt⟩ := exists_timevalCmp hnow ht
      have hnot := hdue a (by simp [hl])
      rw [hu] at hnot
      simp only [List.head?_cons, processTimer, hu, Content.sands?, Option.bind_eq_bind, Option.bind_some, hd,
        if_pos (hlt.mpr hnot)]
      rfl

/-- `thread_timer_process` goes no further than the first timer: behind it the ready list ends. -/
theorem Sound.timerProcess_some {l : List Addr} (h : Sound s ls) {now : Timeval} (hnow : now.Valid)
    (hl : ls .timer = a :: l) (hdue : (s.u a).alarm.le now) :
    threadTimerProcess s .timer now = some (Thread.moved s .timer .ready a .ready, 1) := by
  obtain ⟨t, ht, hu⟩ := h.alarmed.timers a (by simp [hl])
  obtain ⟨d, hd, -, hlt⟩ := exists_timevalCmp hnow ht
  rw [hu] at hdue
  have hmoved : Sound (Thread.moved s .timer .ready a .ready) _ :=
    h.moved (show ls .timer = [] ++ a :: l from hl) (by decide) rfl (by decide) (.inl rfl)
  have hnext : (Thread.moved s .timer .ready a .ready).next a = none := by
    have hlinked := hmoved.linked .ready
    rw [Function.update_self] at hlinked
    exact hlinked.neighbours.2
  have hready : makeReady s .timer a = Thread.moved s .timer .ready a .ready := rfl
  rw [threadTimerProcess, head_lists h.toRep, hl]
  simp only [List.head?_cons, processTimer, hu, Content.sands?, Option.bind_eq_bind, Option.bind_some, hd,
    if_neg (fun hd0 => hlt.mp hd0 hdue), hready, hnext, Nat.zero_add]

/-- `thread_process_fd` from a thread on. -/
theorem Sound.processFd (fdset : FdSet) {rest done : List Addr} (h : Sound s ls) (hl : ls .read = done ++ rest) :
    ∃ s' ls', processFd .read fdset rest.length s rest.head? = some s' ∧ Sound s' ls' ∧ s'.work = s.work ∧
      pending s.work ls' = pending s.work ls := by
  induction rest generalizing s ls done with
  | nil => exact ⟨s, ls, rfl, h, rfl, rfl⟩
  | cons a rest ih =>
      obtain ⟨fd, hin, hfd, hset⟩ := h.watched.readers a (by simp [hl])
      have hnext : s.next a = rest.head? := by
        have hlinked := h.linked .read
        rw [hl] at hlinked
        exact hlinked.neighbours.2
      by_cases hready : fdset fd = true
      · have hmoved := h.movedReader .ready .ready hl rfl (.inl rfl) hfd
        have hread : Function.update (Function.update ls .read (done ++ rest)) .ready (ls .ready ++ [a]) .read =
            done ++ rest := by
          rw [Function.update_of_ne (by decide), Function.update_self]
        obtain ⟨s', ls', hs', hsound, hwork, hpending⟩ := ih hmoved hread
        refine ⟨s', ls', ?_, hsound, hwork, hpending.trans (pending_ready hl (by decide) (by decide))⟩
        simp only [List.length_cons, List.head?_cons, Thread.processFd, hfd, Content.fd?, fdIsset, fdClr, if_pos hin,
          Option.bind_eq_bind, Option.bind_some, hready, hset, if_true, hnext]
        exact hs'
      · have hl' : ls .read = (done ++ [a]) ++ rest := by simp [hl]
        obtain ⟨s', ls', hs', hsound, hwork, hpending⟩ := ih h hl'
        refine ⟨s', ls', ?_, hsound, hwork, hpending⟩
        simp only [List.length_cons, List.head?_cons, Thread.processFd, hfd, Content.fd?, fdIsset, if_pos hin,
          Option.bind_eq_bind, Option.bind_some, hready, hnext]
        exact hs'

/-- The part of `thread_fetch` behind `select`. -/
theorem Sound.afterSelect (h : Sound s ls) {selected : Selected} (hclock : selected.clock.Valid) :
    ∃ s' ls', afterSelect s selected = some s' ∧ Sound s' ls' ∧ s'.work = s.work ∧
      pending s.work ls' = pending s.work ls := by
  obtain ⟨s₁, ls₁, k, hs₁, hsound₁, hwork₁, hpending₁⟩ : ∃ s₁ ls₁ k,
      threadTimerProcess s .timer selected.clock = some (s₁, k) ∧ Sound s₁ ls₁ ∧ s₁.work = s.work ∧
      pending s.work ls₁ = pending s.work ls := by
    by_cases hdue : ∀ a ∈ (ls .timer).head?, ¬ (s.u a).alarm.le selected.clock
    · exact ⟨s, ls, 0, h.timerProcess_none hclock hdue, h, rfl, rfl⟩
    · simp only [not_forall, not_not] at hdue
      obtain ⟨a, ha, hdue⟩ := hdue
      obtain ⟨l, hl⟩ : ∃ l, ls .timer = a :: l := by
        cases hl : ls .timer with
        | nil => simp [hl] at ha
        | cons b l =>
            obtain rfl : b = a := by simpa [hl] using ha
            exact ⟨l, rfl⟩
      exact ⟨_, _, 1, h.timerProcess_some hclock hl hdue,
        h.moved (show ls .timer = [] ++ a :: l from hl) (by decide) rfl (by decide) (.inl rfl), rfl,
        pending_ready (show ls .timer = [] ++ a :: l from hl) (by decide) (by decide)⟩
  by_cases hnum : 0 < selected.num
  · obtain ⟨s₂, ls₂, hs₂, hsound₂, hwork₂, hpending₂⟩ := hsound₁.processFd
      (fun fd => s.readfd fd && selected.readable fd) (List.nil_append (ls₁ .read)).symm
    rw [hwork₁] at hwork₂ hpending₂
    refine ⟨s₂, ls₂, ?_, hsound₂, hwork₂, hpending₂.trans hpending₁⟩
    rw [← count_lists hsound₁.toRep, ← head_lists hsound₁.toRep] at hs₂
    have hwrite : threadProcessFd s₂ .write (fun fd => s.writefd fd && selected.writable fd) = some s₂ := by
      rw [threadProcessFd, count_lists hsound₂.toRep, head_lists hsound₂.toRep, hsound₂.writers]
      rfl
    simp only [Thread.afterSelect, hs₁, Option.bind_eq_bind, Option.bind_some, if_pos hnum]
    rw [threadProcessFd, hs₂]
    exact hwrite
  · refine ⟨s₁, ls₁, ?_, hsound₁, hwork₁, hpending₁⟩
    simp only [Thread.afterSelect, hs₁, Option.bind_eq_bind, Option.bind_some, if_neg hnum]
    rfl

/-- `thread_trim_head`. -/
theorem threadTrimHead_eq (h : Rep s ls) (n : ListName) :
    threadTrimHead s n = match ls n with
      | [] => (s, none)
      | a :: _ => (threadListDelete s n a, some a) := by
  rw [threadTrimHead, head_lists h]
  cases ls n <;> rfl

/-- A thread has been fetched, or all are left. -/
def Fetched (s : Master ω) (ls ls' : ListName → List Addr) : Option (Fetch ω) → Prop
  | some fetch => pending s.work ls = fetch.work ::ₘ pending s.work ls'
  | none => pending s.work ls' = pending s.work ls

/-- `thread_fetch`. -/
theorem Sound.fetch (h : Sound s ls) {selecteds : List Selected} (hclock : ∀ x ∈ selecteds, x.clock.Valid) :
    ∃ s' ls' o, threadFetch selecteds s = some (s', o) ∧ Sound s' ls' ∧ s'.work = s.work ∧ Fetched s ls ls' o := by
  -- the first thread of a list runs
  have hrun : ∀ (s : Master ω) ls n a l, Sound s ls → ls n = a :: l → n ≠ .unuse → n ≠ .read → ∃ s' ls' fetch,
      threadRun (threadListDelete s n a) a = some (s', fetch) ∧ Sound s' ls' ∧ s'.work = s.work ∧
      pending s.work ls = fetch.work ::ₘ pending s.work ls' := by
    intro s ls n a l h hl hn hread
    obtain ⟨s', ls', fetch, hs', hfetch, hsound, hleaves⟩ := h.run hl hn hread
    have hpending := hleaves.pending hn
    obtain ⟨-, -, -, -, -, hwork⟩ := hleaves
    rw [hwork] at hpending
    exact ⟨s', ls', fetch, hs', hsound, hwork, by rw [hpending, hfetch]⟩
  induction selecteds generalizing s ls with
  | nil =>
      rw [threadFetch, threadTrimHead_eq h.toRep]
      cases hevent : ls .event with
      | cons a l =>
          obtain ⟨s', ls', fetch, hs', hsound, hwork, hpending⟩ := hrun s ls .event a l h hevent (by decide) (by decide)
          exact ⟨s', ls', some fetch, by simp only [hs']; rfl, hsound, hwork, hpending⟩
      | nil =>
          simp only
          rw [threadTrimHead_eq h.toRep]
          cases hready : ls .ready with
          | cons a l =>
              obtain ⟨s', ls', fetch, hs', hsound, hwork, hpending⟩ :=
                hrun s ls .ready a l h hready (by decide) (by decide)
              exact ⟨s', ls', some fetch, by simp only [hs']; rfl, hsound, hwork, hpending⟩
          | nil => exact ⟨s, ls, none, rfl, h, rfl, rfl⟩
  | cons selected selecteds ih =>
      rw [threadFetch, threadTrimHead_eq h.toRep]
      cases hevent : ls .event with
      | cons a l =>
          obtain ⟨s', ls', fetch, hs', hsound, hwork, hpending⟩ := hrun s ls .event a l h hevent (by decide) (by decide)
          exact ⟨s', ls', some fetch, by simp only [hs']; rfl, hsound, hwork, hpending⟩
      | nil =>
          simp only
          rw [threadTrimHead_eq h.toRep]
          cases hready : ls .ready with
          | cons a l =>
              obtain ⟨s', ls', fetch, hs', hsound, hwork, hpending⟩ :=
                hrun s ls .ready a l h hready (by decide) (by decide)
              exact ⟨s', ls', some fetch, by simp only [hs']; rfl, hsound, hwork, hpending⟩
          | nil =>
              obtain ⟨s₁, ls₁, hs₁, hsound₁, hwork₁, hpending₁⟩ := h.afterSelect (hclock selected (by simp))
              simp only [hs₁, Option.bind_eq_bind, Option.bind_some]
              rw [threadTrimHead_eq hsound₁.toRep]
              cases hready₁ : ls₁ .ready with
              | cons a l =>
                  obtain ⟨s', ls', fetch, hs', hsound, hwork, hpending⟩ :=
                    hrun s₁ ls₁ .ready a l hsound₁ hready₁ (by decide) (by decide)
                  rw [hwork₁] at hwork hpending
                  exact ⟨s', ls', some fetch, by simp only [hs']; rfl, hsound, hwork, hpending₁.symm.trans hpending⟩
              | nil =>
                  obtain ⟨s', ls', o, hs', hsound, hwork, hfetched⟩ :=
                    ih hsound₁ fun x hx => hclock x (by simp [hx])
                  refine ⟨s', ls', o, hs', hsound, hwork.trans hwork₁, ?_⟩
                  cases o with
                  | none =>
                      simp only [Fetched, hwork₁] at hfetched ⊢
                      exact hfetched.trans hpending₁
                  | some fetch =>
                      simp only [Fetched, hwork₁] at hfetched ⊢
                      exact hpending₁.symm.trans hfetched

theorem sound_create [Inhabited ω] : Sound (threadMasterCreate : Master ω) fun _ => [] := by
  refine ⟨⟨⟨fun _ => trivial, fun _ => rfl, fun _ => List.nodup_nil, fun _ _ a ha => (nomatch ha)⟩, fun a => ?_,
    fun a ha => (nomatch ha), fun _ a ha => (nomatch ha)⟩, ?_, ?_, rfl, rfl⟩
  · change a < 0 ↔ _
    simp
  · exact ⟨fun a ha => (nomatch ha), fun a ha => (nomatch ha), fun fd hfd => (nomatch hfd)⟩
  · exact ⟨fun a ha => (nomatch ha), List.Pairwise.nil⟩

end Sound

end Harry.Thread
