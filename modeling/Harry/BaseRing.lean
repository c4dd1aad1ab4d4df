import Mathlib.Data.List.Nodup
import Mathlib.Logic.Function.Basic

/-! Circular doubly linked lists with a head among their nodes. `Arc` says that nodes hang together between two others,
and a ring is an arc from its head to its head. Several rings live in one memory, and a change in one of them leaves
the others as they are. -/

namespace Harry.Base

variable {ρ : Type}

/-- The pointers of all nodes. -/
structure Links (ρ : Type) where
  next : ρ → ρ
  prev : ρ → ρ

variable {l l' : Links ρ} {a b e h x : ρ} {xs ys ms : List ρ}

/-- The nodes of a list hang together, behind `a` and in front of `b`. -/
def Arc (l : Links ρ) : ρ → List ρ → ρ → Prop
  | a, [], b => l.next a = b ∧ l.prev b = a
  | a, x :: xs, b => l.next a = x ∧ l.prev x = a ∧ Arc l x xs b

theorem arc_append : Arc l a (xs ++ x :: ys) b ↔ Arc l a xs x ∧ Arc l x ys b := by
  induction xs generalizing a with
  | nil => simp only [List.nil_append, Arc, and_assoc]
  | cons y xs ih => simp only [List.cons_append, Arc, ih, and_assoc]

theorem Arc.congr (h : Arc l a xs b) (hnext : ∀ x ∈ a :: xs, l'.next x = l.next x)
    (hprev : ∀ x ∈ b :: xs, l'.prev x = l.prev x) : Arc l' a xs b := by
  induction xs generalizing a with
  | nil => exact ⟨(hnext a (by simp)).trans h.1, (hprev b (by simp)).trans h.2⟩
  | cons y xs ih =>
      obtain ⟨hn, hp, harc⟩ := h
      refine ⟨(hnext a (by simp)).trans hn, (hprev y (by simp)).trans hp, ih harc ?_ ?_⟩
      · exact fun x hx => hnext x (List.mem_cons_of_mem _ hx)
      · intro x hx
        refine hprev x ?_
        rcases List.mem_cons.mp hx with rfl | hx
        · exact List.mem_cons_self
        · exact List.mem_cons_of_mem _ (List.mem_cons_of_mem _ hx)

theorem Arc.next_eq (h : Arc l a xs b) : l.next a = xs.headD b := by
  cases xs with
  | nil => exact h.1
  | cons y xs => exact h.1

theorem Arc.prev_eq (h : Arc l a xs b) : l.prev b = xs.getLastD a := by
  induction xs generalizing a with
  | nil => exact h.2
  | cons y xs ih => rw [ih h.2.2, List.getLastD_cons]

theorem headD_mem (xs : List ρ) (b : ρ) : xs.headD b ∈ b :: xs := by
  cases xs with
  | nil => exact List.mem_cons_self
  | cons y xs => exact List.mem_cons_of_mem _ List.mem_cons_self

theorem getLastD_mem (xs : List ρ) (a : ρ) : xs.getLastD a ∈ a :: xs := by
  induction xs generalizing a with
  | nil => exact List.mem_cons_self
  | cons y xs ih =>
      rw [List.getLastD_cons]
      exact List.mem_cons_of_mem _ (ih y)

/-- The links the other way round. -/
def Links.flip (l : Links ρ) : Links ρ := ⟨l.prev, l.next⟩

theorem Arc.flip (h : Arc l a xs b) : Arc l.flip b xs.reverse a := by
  induction xs generalizing a with
  | nil => exact ⟨h.2, h.1⟩
  | cons y xs ih =>
      obtain ⟨hn, hp, harc⟩ := h
      rw [List.reverse_cons]
      exact arc_append.mpr ⟨ih harc, hp, hn⟩

variable [DecidableEq ρ]

/-- A node is linked in before another one. -/
def Links.insert (l : Links ρ) (b e : ρ) : Links ρ where
  next := Function.update (Function.update l.next e b) (l.prev b) e
  prev := Function.update (Function.update l.prev e (l.prev b)) b e

/-- The neighbours of a node are linked to each other; its own pointers stay as they are. -/
def Links.unlink (l : Links ρ) (e : ρ) : Links ρ where
  next := Function.update l.next (l.prev e) (l.next e)
  prev := Function.update l.prev (l.next e) (l.prev e)

/-- A node is a ring of its own. -/
def Links.single (l : Links ρ) (h : ρ) : Links ρ where
  next := Function.update l.next h h
  prev := Function.update l.prev h h

/-- A node is put at the end of an arc. -/
theorem Arc.insert (h : Arc l a xs b) (hnodup : (a :: xs).Nodup) (hb : b ∉ xs) (he : e ∉ a :: xs) (hne : e ≠ b) :
    Arc (l.insert b e) a (xs ++ [e]) b := by
  induction xs generalizing a with
  | nil =>
      obtain ⟨-, hprev⟩ := h
      have hea : a ≠ e := fun heq => he (heq ▸ List.mem_cons_self)
      simp [Arc, Links.insert, hprev, hea.symm, hne]
  | cons x xs ih =>
      obtain ⟨hn, hp, harc⟩ := h
      obtain ⟨ha, hnodup'⟩ := List.nodup_cons.mp hnodup
      have hlast : l.prev b ∈ x :: xs := by
        rw [harc.prev_eq]
        exact getLastD_mem xs x
      have hea : e ≠ a := fun heq => he (heq ▸ List.mem_cons_self)
      have hex : e ≠ x := fun heq => he (heq ▸ List.mem_cons_of_mem _ List.mem_cons_self)
      have hbx : b ≠ x := fun heq => hb (heq ▸ List.mem_cons_self)
      refine ⟨?_, ?_, ih harc hnodup' (fun hmem => hb (List.mem_cons_of_mem _ hmem))
        (fun hmem => he (List.mem_cons_of_mem _ hmem))⟩
      · have hal : a ≠ l.prev b := fun heq => ha (heq ▸ hlast)
        simp [Links.insert, hal, hea.symm, hn]
      · simp [Links.insert, hbx.symm, hex.symm, hp]

/-- An arc that the change is not in. -/
theorem Arc.insert_of_not_mem {c d : ρ} (h : Arc l c ys d) (hprev : l.prev b ∉ c :: ys) (hb : b ∉ d :: ys)
    (he : e ∉ c :: ys) (he' : e ∉ d :: ys) : Arc (l.insert b e) c ys d := by
  refine h.congr (fun x hx => ?_) fun x hx => ?_
  · have hxp : x ≠ l.prev b := fun heq => hprev (heq ▸ hx)
    have hxe : x ≠ e := fun heq => he (heq ▸ hx)
    simp [Links.insert, hxp, hxe]
  · have hxb : x ≠ b := fun heq => hb (heq ▸ hx)
    have hxe : x ≠ e := fun heq => he' (heq ▸ hx)
    simp [Links.insert, hxb, hxe]

theorem Arc.unlink_of_not_mem {c d : ρ} (h : Arc l c ys d) (hprev : l.prev e ∉ c :: ys) (hnext : l.next e ∉ d :: ys) :
    Arc (l.unlink e) c ys d := by
  refine h.congr (fun x hx => ?_) fun x hx => ?_
  · have hxp : x ≠ l.prev e := fun heq => hprev (heq ▸ hx)
    simp [Links.unlink, hxp]
  · have hxn : x ≠ l.next e := fun heq => hnext (heq ▸ hx)
    simp [Links.unlink, hxn]

/-- A node is taken out of an arc. -/
theorem Arc.unlink (h : Arc l a (xs ++ e :: ys) b) (ha : a ∉ xs ++ e :: ys) (hb : b ∉ xs ++ e :: ys)
    (hnodup : (xs ++ e :: ys).Nodup) : Arc (l.unlink e) a (xs ++ ys) b := by
  induction xs generalizing a with
  | nil =>
      obtain ⟨hn, hp, harc⟩ := h
      cases ys with
      | nil =>
          obtain ⟨hn', hp'⟩ := harc
          simp [Arc, Links.unlink, hn', hp]
      | cons y ys =>
          obtain ⟨hn', hp', harc'⟩ := harc
          refine ⟨by simp [Links.unlink, hn', hp], by simp [Links.unlink, hn', hp], ?_⟩
          refine harc'.unlink_of_not_mem ?_ ?_
          · rw [hp]
            exact fun hmem => ha (List.mem_cons_of_mem _ hmem)
          · rw [hn']
            intro hmem
            rcases List.mem_cons.mp hmem with rfl | hmem
            · exact hb (by simp)
            · exact (List.nodup_cons.mp (List.nodup_cons.mp hnodup).2).1 hmem
  | cons x xs ih =>
      obtain ⟨hn, hp, harc⟩ := h
      obtain ⟨hx, hnodup'⟩ := List.nodup_cons.mp hnodup
      have hsplit := arc_append.mp harc
      have hprev : l.prev e ∈ x :: xs := by
        rw [hsplit.1.prev_eq]
        exact getLastD_mem xs x
      have hnext : l.next e ∈ b :: ys := by
        rw [hsplit.2.next_eq]
        exact headD_mem ys b
      refine ⟨?_, ?_, ih harc hx (fun hmem => hb (List.mem_cons_of_mem _ hmem)) hnodup'⟩
      · have hap : a ≠ l.prev e := by
          rintro rfl
          refine ha ?_
          rw [List.cons_append, List.mem_cons, List.mem_append]
          exact (List.mem_cons.mp hprev).imp_right .inl
        simp [Links.unlink, hap, hn]
      · have hxn : x ≠ l.next e := by
          rintro rfl
          rcases List.mem_cons.mp hnext with heq | hmem
          · exact hb (heq ▸ List.mem_cons_self)
          · exact hx (List.mem_append_right _ (List.mem_cons_of_mem _ hmem))
        simp [Links.unlink, hxn, hp]

/-! ### Rings -/

/-- The lists of some heads. -/
abbrev Members (ρ : Type) := ρ → Option (List ρ)

/-- A node that is in no list. -/
def Free (m : Members ρ) (e : ρ) : Prop := ∀ h ms, m h = some ms → e ∉ h :: ms

/-- Each head with its list is a ring, and no node is in two. -/
structure Rings (l : Links ρ) (m : Members ρ) : Prop where
  arc : ∀ h ms, m h = some ms → Arc l h ms h
  nodup : ∀ h ms, m h = some ms → (h :: ms).Nodup
  disjoint : ∀ h ms h' ms', m h = some ms → m h' = some ms' → h ≠ h' → (h :: ms).Disjoint (h' :: ms')

variable {m : Members ρ} {as bs : List ρ}

omit [DecidableEq ρ] in
theorem rings_none (l : Links ρ) : Rings l fun _ => none where
  arc _ _ hm := nomatch hm
  nodup _ _ hm := nomatch hm
  disjoint _ _ _ _ hm := nomatch hm

theorem free_single {a : ρ} (ha : a ≠ h) : Free (Function.update (fun _ => none) h (some [])) a := by
  intro c cs hc hmem
  by_cases hch : c = h
  · subst hch
    rw [Function.update_self, Option.some.injEq] at hc
    rw [← hc, List.mem_singleton] at hmem
    exact ha hmem
  · rw [Function.update_of_ne hch] at hc
    cases hc

omit [DecidableEq ρ] in
/-- What a ring is made of, and what is free, is not in other rings. -/
theorem Rings.not_mem_other (hr : Rings l m) (hm : m h = some xs) (hmem : ∀ x ∈ ys, x ∈ xs ∨ Free m x) {c : ρ}
    (hc : m c = some ms) (hne : c ≠ h) : ∀ x ∈ h :: ys, x ∉ c :: ms := by
  intro x hx hx'
  rcases List.mem_cons.mp hx with rfl | hx
  · exact hr.disjoint x xs c ms hm hc hne.symm List.mem_cons_self hx'
  · rcases hmem x hx with hx | hfree
    · exact hr.disjoint h xs c ms hm hc hne.symm (List.mem_cons_of_mem _ hx) hx'
    · exact hfree c ms hc hx'

/-- A change of one ring, when the other ones have none of its nodes and keep their links. -/
theorem Rings.change (hr : Rings l m) (harc : Arc l' h ys h) (hnodup : (h :: ys).Nodup)
    (hother : ∀ c ms, m c = some ms → c ≠ h → Arc l' c ms c ∧ ∀ x ∈ h :: ys, x ∉ c :: ms) :
    Rings l' (Function.update m h (some ys)) := by
  constructor
  · intro c ms hc
    by_cases hch : c = h
    · subst hch
      rw [Function.update_self, Option.some.injEq] at hc
      exact hc ▸ harc
    · rw [Function.update_of_ne hch] at hc
      exact (hother c ms hc hch).1
  · intro c ms hc
    by_cases hch : c = h
    · subst hch
      rw [Function.update_self, Option.some.injEq] at hc
      exact hc ▸ hnodup
    · rw [Function.update_of_ne hch] at hc
      exact hr.nodup c ms hc
  · intro c ms d ms' hc hd hne
    by_cases hch : c = h
    · subst hch
      rw [Function.update_self, Option.some.injEq] at hc
      rw [Function.update_of_ne hne.symm] at hd
      exact hc ▸ (hother d ms' hd hne.symm).2
    · rw [Function.update_of_ne hch] at hc
      by_cases hdh : d = h
      · subst hdh
        rw [Function.update_self, Option.some.injEq] at hd
        subst hd
        exact fun x hx hx' => (hother c ms hc hch).2 x hx' hx
      · rw [Function.update_of_ne hdh] at hd
        exact hr.disjoint c ms d ms' hc hd hne

/-- A list that is forgotten. -/
theorem Rings.forget (hr : Rings l m) (h : ρ) : Rings l (Function.update m h none) := by
  have hold : ∀ c ms, Function.update m h none c = some ms → m c = some ms := by
    intro c ms hc
    by_cases hch : c = h
    · subst hch
      rw [Function.update_self] at hc
      cases hc
    · rwa [Function.update_of_ne hch] at hc
  exact ⟨fun c ms hc => hr.arc c ms (hold c ms hc), fun c ms hc => hr.nodup c ms (hold c ms hc),
    fun c ms d ms' hc hd => hr.disjoint c ms d ms' (hold c ms hc) (hold d ms' hd)⟩

omit [DecidableEq ρ] in
/-- What is before a place in a ring. -/
theorem Arc.prev_headD (h : Arc l a (as ++ bs) b) : l.prev (bs.headD b) = as.getLastD a := by
  cases bs with
  | nil =>
      rw [List.append_nil] at h
      exact h.prev_eq
  | cons c bs => exact (arc_append.mp h).1.prev_eq

theorem Rings.insert (hr : Rings l m) (hm : m h = some (as ++ bs)) (he : Free m e) :
    Rings (l.insert (bs.headD h) e) (Function.update m h (some (as ++ e :: bs))) := by
  have harc := hr.arc h _ hm
  have hnodup := hr.nodup h _ hm
  have heh : e ∉ h :: (as ++ bs) := he h _ hm
  have hsub : ∀ x ∈ h :: as, x ∈ h :: (as ++ bs) := by
    intro x hx
    rw [List.mem_cons, List.mem_append]
    exact (List.mem_cons.mp hx).imp_right .inl
  have hsub' : ∀ x ∈ h :: bs, x ∈ h :: (as ++ bs) := by
    intro x hx
    rw [List.mem_cons, List.mem_append]
    exact (List.mem_cons.mp hx).imp_right .inr
  have hprev : l.prev (bs.headD h) ∈ h :: as := by
    rw [harc.prev_headD]
    exact getLastD_mem as h
  have hmem : ∀ x ∈ as ++ e :: bs, x ∈ as ++ bs ∨ Free m x := by
    intro x hx
    rw [List.mem_append, List.mem_cons] at hx
    rcases hx with hx | rfl | hx
    · exact .inl (List.mem_append_left _ hx)
    · exact .inr he
    · exact .inl (List.mem_append_right _ hx)
  refine hr.change ?_ ?_ fun c ms hc hne => ⟨?_, hr.not_mem_other hm hmem hc hne⟩
  · cases bs with
    | nil =>
        rw [List.append_nil] at harc hnodup heh
        exact harc.insert hnodup (List.nodup_cons.mp hnodup).1 heh fun heq => heh (heq ▸ List.mem_cons_self)
    | cons b bs =>
        obtain ⟨hfirst, hsecond⟩ := arc_append.mp harc
        obtain ⟨hh, hnodup'⟩ := List.nodup_cons.mp hnodup
        obtain ⟨has, hbs, hdisj⟩ := List.nodup_append.mp hnodup'
        have hhas : (h :: as).Nodup := List.nodup_cons.mpr ⟨fun hmem => hh (List.mem_append_left _ hmem), has⟩
        have hb : b ∉ as := fun hmem => hdisj b hmem b List.mem_cons_self rfl
        have hlast : ∀ x ∈ h :: as, x ∉ b :: bs := by
          intro x hx hx'
          rcases List.mem_cons.mp hx with rfl | hx
          · exact hh (List.mem_append_right _ hx')
          · exact hdisj x hx x hx' rfl
        have hbh : b ∉ h :: bs := by
          intro hmem
          rcases List.mem_cons.mp hmem with rfl | hmem
          · exact hh (by simp)
          · exact (List.nodup_cons.mp hbs).1 hmem
        rw [List.append_cons]
        refine arc_append.mpr ⟨?_, ?_⟩
        · exact hfirst.insert hhas hb (fun hmem => heh (hsub e hmem)) fun heq => heh (hsub' e (heq ▸ by simp))
        · refine hsecond.insert_of_not_mem (hlast _ hprev) hbh (fun hmem => heh (hsub' e (.tail _ hmem))) ?_
          intro hmem
          refine heh (hsub' e ?_)
          rcases List.mem_cons.mp hmem with rfl | hmem
          · exact List.mem_cons_self
          · exact .tail _ (.tail _ hmem)
  · rw [← List.cons_append, List.nodup_middle, List.nodup_cons]
    exact ⟨heh, hnodup⟩
  · have hdisj := hr.disjoint h _ c ms hm hc hne.symm
    have hec : e ∉ c :: ms := he c ms hc
    exact (hr.arc c ms hc).insert_of_not_mem (fun hmem => hdisj (hsub _ hprev) hmem)
      (fun hmem => hdisj (hsub' _ (headD_mem bs h)) hmem) hec hec

theorem Rings.unlink (hr : Rings l m) (hm : m h = some (as ++ e :: bs)) :
    Rings (l.unlink e) (Function.update m h (some (as ++ bs))) := by
  have harc := hr.arc h _ hm
  have hnodup := hr.nodup h _ hm
  obtain ⟨hh, hnodup'⟩ := List.nodup_cons.mp hnodup
  obtain ⟨hfirst, hsecond⟩ := arc_append.mp harc
  have hsub : ∀ x ∈ as ++ bs, x ∈ as ++ e :: bs := by
    intro x hx
    rw [List.mem_append, List.mem_cons]
    exact (List.mem_append.mp hx).imp_right .inr
  have hprev : l.prev e ∈ h :: (as ++ e :: bs) := by
    rw [hfirst.prev_eq, List.mem_cons, List.mem_append]
    exact (List.mem_cons.mp (getLastD_mem as h)).imp_right .inl
  have hnext : l.next e ∈ h :: (as ++ e :: bs) := by
    rw [hsecond.next_eq, List.mem_cons, List.mem_append]
    exact (List.mem_cons.mp (headD_mem bs h)).imp_right fun hmem => .inr (.tail _ hmem)
  refine hr.change (harc.unlink hh hh hnodup') ?_ fun c ms hc hne =>
    ⟨?_, hr.not_mem_other hm (fun x hx => .inl (hsub x hx)) hc hne⟩
  · rw [← List.cons_append, List.nodup_middle, List.nodup_cons] at hnodup
    exact hnodup.2
  · have hdisj := hr.disjoint h _ c ms hm hc hne.symm
    exact (hr.arc c ms hc).unlink_of_not_mem (fun hmem => hdisj hprev hmem) fun hmem => hdisj hnext hmem

/-- A node that is in no list of another one becomes a list. -/
theorem Rings.single (hr : Rings l m) (hfree : ∀ c ms, m c = some ms → h ∉ ms) :
    Rings (l.single h) (Function.update m h (some [])) := by
  refine hr.change ⟨by simp [Links.single], by simp [Links.single]⟩ (List.nodup_singleton h) fun c ms hc hne => ?_
  have hfar : h ∉ c :: ms := by
    intro hmem
    rcases List.mem_cons.mp hmem with rfl | hmem
    · exact hne rfl
    · exact hfree c ms hc hmem
  refine ⟨(hr.arc c ms hc).congr (fun x hx => ?_) fun x hx => ?_, ?_⟩
  · have hxh : x ≠ h := fun heq => hfar (heq ▸ hx)
    simp [Links.single, hxh]
  · have hxh : x ≠ h := fun heq => hfar (heq ▸ hx)
    simp [Links.single, hxh]
  · intro x hx
    exact List.mem_singleton.mp hx ▸ hfar

end Harry.Base
