import Mathlib.Data.List.Nodup
import Mathlib.Logic.Function.Basic

/-! Doubly linked lists that are threaded through objects: each object has a pointer to the next one and a pointer to
the previous one. `Seg` says that the objects of a list hang together, between what comes before and what comes
behind; `Linked` is a whole list. The pointers of a list change at the two ends of a gap only, so that a list with an
object more, less or in place of another is linked by a change at its neighbours. -/

namespace Harry.Base

variable {ρ β : Type}

/-- The objects of a list hang together, behind `before` and in front of `after`. -/
def Seg (next prev : ρ → Option ρ) : Option ρ → List ρ → Option ρ → Prop
  | _, [], _ => True
  | before, a :: l, after => prev a = before ∧ next a = l.head?.or after ∧ Seg next prev (some a) l after

/-- The objects of a list are all of a linked list. -/
def Linked (next prev : ρ → Option ρ) (l : List ρ) : Prop :=
  Seg next prev none l none

variable {next prev next' prev' : ρ → Option ρ} {before after : Option ρ} {as bs l : List ρ} {a x : ρ}

theorem seg_append :
    Seg next prev before (as ++ bs) after ↔
      Seg next prev before as (bs.head?.or after) ∧ Seg next prev (as.getLast?.or before) bs after := by
  induction as generalizing before with
  | nil => simp [Seg]
  | cons a as ih =>
      have hlast : (a :: as).getLast?.or before = as.getLast?.or (some a) := by
        cases as with
        | nil => simp
        | cons b as => simp [List.getLast?_eq_some_getLast]
      simp only [List.cons_append, Seg, ih, hlast, List.head?_append, Option.or_assoc, and_assoc]

theorem Seg.congr (h : Seg next prev before l after) (hnext : ∀ a ∈ l, next' a = next a)
    (hprev : ∀ a ∈ l, prev' a = prev a) : Seg next' prev' before l after := by
  induction l generalizing before with
  | nil => trivial
  | cons a l ih =>
      obtain ⟨hp, hn, hl⟩ := h
      refine ⟨by rw [hprev a (by simp), hp], by rw [hnext a (by simp), hn], ?_⟩
      exact ih hl (fun b hb => hnext b (by simp [hb])) fun b hb => hprev b (by simp [hb])

theorem getLast?_ne_of_not_mem (h : a ∉ l) : l.getLast? ≠ some a :=
  fun hl => h (List.mem_of_getLast? hl)

theorem head?_ne_of_not_mem (h : a ∉ l) : l.head? ≠ some a :=
  fun hl => h (List.mem_of_mem_head? hl)

/-- The neighbours of an object. -/
theorem Linked.neighbours (h : Linked next prev (as ++ x :: bs)) :
    prev x = as.getLast? ∧ next x = bs.head? := by
  rw [Linked, seg_append] at h
  exact ⟨by simpa using h.2.1, by simpa using h.2.2.1⟩

/-- An object is behind another one if and only if the other one is before it. -/
theorem Linked.next_iff_prev (h : Linked next prev l) {a b : ρ} (ha : a ∈ l) (hb : b ∈ l) :
    next a = some b ↔ prev b = some a := by
  constructor
  · intro hab
    obtain ⟨as, bs, rfl⟩ := List.append_of_mem ha
    obtain ⟨-, hn⟩ := h.neighbours
    rw [hn] at hab
    obtain ⟨c, bs, rfl⟩ : ∃ c cs, bs = c :: cs := List.exists_cons_of_ne_nil (by rintro rfl; simp at hab)
    obtain rfl : c = b := by simpa using hab
    have h' : Linked next prev ((as ++ [a]) ++ c :: bs) := by simpa using h
    simpa using h'.neighbours.1
  · intro hba
    obtain ⟨as, bs, rfl⟩ := List.append_of_mem hb
    obtain ⟨hp, -⟩ := h.neighbours
    rw [hp] at hba
    obtain ⟨as', c, rfl⟩ := List.eq_nil_or_concat as |>.resolve_left (by rintro rfl; simp at hba)
    obtain rfl : c = a := by simpa using hba
    have h' : Linked next prev (as' ++ c :: (b :: bs)) := by simpa using h
    simpa using h'.neighbours.2

/-! ### Changes -/

variable [DecidableEq ρ]

/-- A change at a pointer, none if it is null. -/
def updateAt (f : ρ → β) (o : Option ρ) (v : β) : ρ → β :=
  match o with
  | none => f
  | some a => Function.update f a v

@[simp]
theorem updateAt_none (f : ρ → β) (v : β) : updateAt f none v = f := rfl

@[simp]
theorem updateAt_some (f : ρ → β) (a : ρ) (v : β) : updateAt f (some a) v = Function.update f a v := rfl

theorem updateAt_of_ne {f : ρ → β} {o : Option ρ} {v : β} {a : ρ} (h : o ≠ some a) : updateAt f o v a = f a := by
  cases o with
  | none => rfl
  | some b =>
      have hne : a ≠ b := fun hab => h (hab ▸ rfl)
      simp [Function.update_of_ne hne]

theorem updateAt_update_comm {f : ρ → β} {o : Option ρ} {a : ρ} {v w : β} (h : o ≠ some a) :
    updateAt (Function.update f a w) o v = Function.update (updateAt f o v) a w := by
  cases o with
  | none => rfl
  | some b =>
      have hne : a ≠ b := fun hab => h (congrArg some hab.symm)
      exact Function.update_comm hne w v f

/-- The last object is turned to something else. -/
theorem Seg.setLast (h : Seg next prev before l after) (hl : l.Nodup) (w : Option ρ) :
    Seg (updateAt next l.getLast? w) prev before l w := by
  obtain rfl | ⟨as, a, rfl⟩ := List.eq_nil_or_concat l
  · trivial
  · simp only [List.concat_eq_append, List.getLast?_concat, seg_append] at h ⊢
    have ha : a ∉ as := fun hmem => (List.nodup_append.mp (by simpa using hl)).2.2 a hmem a (by simp) rfl
    refine ⟨?_, ?_⟩
    · refine Seg.congr h.1 (fun b hb => ?_) fun _ _ => rfl
      exact updateAt_of_ne fun hab => ha (Option.some.inj hab ▸ hb)
    · exact ⟨h.2.1, by simp, trivial⟩

/-- The first object is turned to something else. -/
theorem Seg.setFirst (h : Seg next prev before l after) (hl : l.Nodup) (u : Option ρ) :
    Seg next (updateAt prev l.head? u) u l after := by
  cases l with
  | nil => trivial
  | cons a l =>
      obtain ⟨-, hn, hs⟩ := h
      refine ⟨by simp, hn, hs.congr (fun _ _ => rfl) fun b hb => ?_⟩
      exact updateAt_of_ne fun hab => (List.nodup_cons.mp hl).1 (Option.some.inj hab ▸ hb)

/-- The pointers of the neighbours of a gap, turned to what is put there. -/
theorem Linked.gap (h : Linked next prev (as ++ l ++ bs)) (hnd : (as ++ bs).Nodup) (u w : Option ρ) :
    Seg (updateAt next as.getLast? w) (updateAt prev bs.head? u) none as w ∧
    Seg (updateAt next as.getLast? w) (updateAt prev bs.head? u) u bs none := by
  rw [Linked, List.append_assoc, seg_append, seg_append] at h
  obtain ⟨has, -, hbs⟩ := h
  obtain ⟨hna, hnb, hdis⟩ := List.nodup_append.mp hnd
  constructor
  · refine (has.setLast hna w).congr (fun _ _ => rfl) fun a ha => updateAt_of_ne ?_
    exact head?_ne_of_not_mem fun hb => hdis a ha a hb rfl
  · refine (hbs.setFirst hnb u).congr (fun a ha => updateAt_of_ne ?_) fun _ _ => rfl
    exact getLast?_ne_of_not_mem fun hb => hdis a hb a ha rfl

/-- An object in the place of a part of a list, which may be empty or the object itself. -/
theorem Linked.put (h : Linked next prev (as ++ l ++ bs)) (hnd : (as ++ x :: bs).Nodup) :
    Linked (Function.update (updateAt next as.getLast? (some x)) x bs.head?)
      (Function.update (updateAt prev bs.head? (some x)) x as.getLast?) (as ++ x :: bs) := by
  have hx : x ∉ as ++ bs := by
    have hperm := (List.perm_middle (a := x)).nodup_iff.mp hnd
    exact (List.nodup_cons.mp hperm).1
  have hnd' : (as ++ bs).Nodup := hnd.sublist (by simp)
  obtain ⟨has, hbs⟩ := h.gap hnd' (some x) (some x)
  have hne : ∀ a ∈ as ++ bs, a ≠ x := fun a ha hax => hx (hax ▸ ha)
  rw [Linked, seg_append]
  refine ⟨?_, by simp, by simp, ?_⟩
  · refine has.congr (fun a ha => ?_) fun a ha => ?_ <;>
      exact Function.update_of_ne (hne a (by simp [ha])) _ _
  · refine hbs.congr (fun a ha => ?_) fun a ha => ?_ <;>
      exact Function.update_of_ne (hne a (by simp [ha])) _ _

/-- A list without one of its objects. -/
theorem Linked.remove (h : Linked next prev (as ++ x :: bs)) (hnd : (as ++ x :: bs).Nodup) :
    Linked (updateAt next as.getLast? bs.head?) (updateAt prev bs.head? as.getLast?) (as ++ bs) := by
  have hnd' : (as ++ bs).Nodup := hnd.sublist (by simp)
  obtain ⟨has, hbs⟩ := Linked.gap (l := [x]) (by simpa using h) hnd' as.getLast? bs.head?
  rw [Linked, seg_append]
  exact ⟨by simpa using has, by simpa using hbs⟩

end Harry.Base
