import Harry.BaseExec
import Harry.SiblingRouteRun

/-! Which route of a prefix comes first. The loop in `ospf6_route_add` looks for a route of the same origin and for the
place of the new route at once, and stops at whichever it meets first; a route that replaces another one stands where
that one stood, whatever it costs now. -/

namespace Harry.Routes

open Harry.Base Harry.Table Harry.Sibling

/-- The routes with a prefix, from one route on along the list. -/
def routesFrom (s : Rtable) (p : List Bool) : Nat → Option Addr → List Addr
  | 0, _ | _, none => []
  | n + 1, some a => if (s.route a).dest = p then a :: routesFrom s p n (s.next a) else []

/-- The routes with a prefix, as the table has them. -/
def routesOf (s : Rtable) (p : List Bool) : List Addr :=
  routesFrom s p s.count (s.table.info p)

def ofType (route : Addr → Route) (t : UInt8) (g : List Addr) : List Addr :=
  g.filter fun a => (route a).type == t

/-- `ospf6_route_cmp` does not prefer the second route. -/
def noWorse (ra rb : Route) : Bool :=
  match routeCmp ra rb with
  | .ok d => decide (d ≤ 0)
  | .error _ => false

/-- The first route of a group is minimal under `ospf6_route_cmp` and the only one that is marked as the best, and no
two routes have the same origin. -/
def FirstIsBest (route : Addr → Route) (best : Addr → Bool) : List Addr → Prop
  | [] => True
  | h :: T =>
    best h = true ∧ (∀ x ∈ T, best x = false ∧ noWorse (route h) (route x) = true) ∧
      (h :: T).Pairwise fun x y => (route x).path.origin ≠ (route y).path.origin

instance (route : Addr → Route) (best : Addr → Bool) : (g : List Addr) → Decidable (FirstIsBest route best g)
  | [] => .isTrue trivial
  | _ :: _ => inferInstanceAs (Decidable (_ ∧ _ ∧ _))

/-- In every group of routes with the same prefix and type the first is the best. -/
def BestFirst (s : Rtable) : Prop :=
  ∀ p t, FirstIsBest s.route (fun a => (s.flag a).best) (ofType s.route t (routesOf s p))

/-- `ospf6_route_cmp` prefers the second route. -/
def worse (ra rb : Route) : Bool :=
  match routeCmp ra rb with
  | .ok d => decide (0 < d)
  | .error _ => false

/-- When a route may be added to the routes `g` with its prefix. If the first one of its type has its origin, that one
is replaced, and the new one has to be as good as the others. If the first one is worse, the new one comes before it,
and no other one may have its origin. Else, if another one has its origin, the loop has to come to that one, and does
not if a worse one stops it before. A route that does not come first must not be marked as the best when it is handed
over, and one that comes first in its type only must be. -/
def Suits (route : Addr → Route) (g : List Addr) (r : Route) (best : Bool) : Prop :=
  let T := ofType route r.type g
  (T = [] → g = [] ∨ best = true) ∧
    ∀ h ∈ T.head?,
      if isSameOrigin (route h) r then
        isIdentical (route h) r = true ∨
          (g.head? = some h ∨ best = true) ∧ ∀ x ∈ T.tail, noWorse r (route x) = true
      else if worse (route h) r then
        g.head? = some h ∧ ∀ x ∈ T.tail, isSameOrigin (route x) r = false ∧ noWorse r (route x) = true
      else noWorse (route h) r = true →
        (∀ o ∈ T.tail.find? fun x => isSameOrigin (route x) r,
          ∀ x ∈ T.tail.takeWhile fun x => !isSameOrigin (route x) r, noWorse (route x) r = true) ∧
        (best = false ∨ ∃ o ∈ T.tail.find? fun x => isSameOrigin (route x) r, isIdentical (route o) r = true)

instance (route : Addr → Route) (g : List Addr) (r : Route) (best : Bool) : Decidable (Suits route g r best) :=
  inferInstanceAs (Decidable (_ ∧ _))

/-- When a route may be removed from the routes `g` with its prefix: if it is the first one of its type and others
are left, the next one has to be minimal among these, and has to be the next one of the prefix. -/
def Spares (route : Addr → Route) (g : List Addr) (a : Addr) : Prop :=
  let T := ofType route (route a).type g
  T.head? = some a → ∀ c ∈ T.tail.head?,
    g.take 2 = [a, c] ∧ ∀ x ∈ T.tail.tail, noWorse (route c) (route x) = true

instance (route : Addr → Route) (g : List Addr) (a : Addr) : Decidable (Spares route g a) :=
  inferInstanceAs (Decidable (_ → _))

section Compare

variable {ra rb : Route}

theorem noWorse_iff : noWorse ra rb = true ↔ ∃ d, routeCmp ra rb = .ok d ∧ d ≤ 0 := by
  cases h : routeCmp ra rb <;> simp [noWorse, h]

theorem worse_iff : worse ra rb = true ↔ ∃ d, routeCmp ra rb = .ok d ∧ 0 < d := by
  cases h : routeCmp ra rb <;> simp [worse, h]

theorem not_worse (h : noWorse ra rb = true) : worse ra rb = false := by
  rw [noWorse_iff] at h
  obtain ⟨d, hd, hle⟩ := h
  simpa [worse, hd] using hle

theorem not_noWorse (h : worse ra rb = true) : noWorse ra rb = false := by
  rw [worse_iff] at h
  obtain ⟨d, hd, hpos⟩ := h
  simpa [noWorse, hd] using hpos

theorem typed_of_noWorse (h : noWorse ra rb = true) : ra.path.Typed ∧ rb.path.Typed := by
  rw [noWorse_iff] at h
  obtain ⟨d, hd, -⟩ := h
  by_contra hno
  simp [routeCmp, hno] at hd

theorem intDiff_swap {a b : UInt32} (h : 0 < intDiff a b) : intDiff b a ≤ 0 := by
  simp only [intDiff, UInt32.toBitVec_sub, BitVec.toInt_eq_toNat_cond, BitVec.toNat_sub] at h ⊢
  have ha := a.toBitVec.isLt
  have hb := b.toBitVec.isLt
  split at h <;> split <;> omega

/-- Of two routes of which the first is worse, the second is no worse. -/
theorem noWorse_swap (hworse : worse ra rb = true) : noWorse rb ra = true := by
  rw [worse_iff] at hworse
  obtain ⟨d, h, hd⟩ := hworse
  have htyped : ra.path.Typed ∧ rb.path.Typed := by
    by_contra hno
    simp [routeCmp, hno] at h
  simp only [routeCmp, if_pos htyped] at h
  rw [noWorse_iff]
  simp only [routeCmp, if_pos htyped.symm]
  by_cases htype : ra.type = rb.type
  · by_cases hpath : ra.path.type = rb.path.type
    · by_cases hexternal : rb.path.type = pathTypeExternal2
      · simp only [htype, hpath, hexternal, ne_eq, not_true_eq_false, if_false, if_true, Except.ok.injEq] at h ⊢
        subst h
        exact ⟨_, rfl, intDiff_swap hd⟩
      · simp only [htype, hpath, hexternal, ne_eq, not_true_eq_false, if_false, Except.ok.injEq] at h ⊢
        subst h
        exact ⟨_, rfl, intDiff_swap hd⟩
    · simp only [htype, hpath, Ne.symm hpath, ne_eq, not_true_eq_false, not_false_eq_true, if_false, if_true,
        Except.ok.injEq] at h ⊢
      exact ⟨_, rfl, by omega⟩
  · simp only [htype, Ne.symm htype, ne_eq, not_false_eq_true, if_true, Except.ok.injEq] at h ⊢
    exact ⟨_, rfl, by omega⟩

end Compare

section Search

variable {route : Addr → Route} {best : Addr → Bool} {r : Route} {a : Addr} {g before behind : List Addr}
  {old : Option Addr}

/-- What the routes before, at and behind the place of a new one have shown in the search. -/
structure Searched (route : Addr → Route) (r : Route) (before : List Addr) (old : Option Addr)
    (behind : List Addr) : Prop where
  passed : ∀ c ∈ before, (route c).type = r.type → isSameOrigin (route c) r = false ∧ noWorse (route c) r = true
  same : ∀ o ∈ old, (route o).type = r.type ∧ isSameOrigin (route o) r = true
  stop : old = none → ∀ c ∈ behind.head?,
    (route c).type = r.type ∧ isSameOrigin (route c) r = false ∧ worse (route c) r = true

theorem searched_of_groupSearch (h : groupSearch route r g = .ok (before, old, behind)) :
    Searched route r before old behind := by
  induction g generalizing before old behind with
  | nil =>
      simp only [groupSearch, Except.ok.injEq, Prod.mk.injEq] at h
      obtain ⟨rfl, rfl, rfl⟩ := h
      exact ⟨by simp, by simp, by simp⟩
  | cons c g ih =>
      obtain ⟨hc, -⟩ | ⟨hc, horigin, htype⟩ | ⟨hc, horigin, htype, d, hd, hpos⟩ | ⟨hc, hpass⟩ :=
        groupSearch_cons route r c g
      · simp [hc] at h
      · simp only [hc, Except.ok.injEq, Prod.mk.injEq] at h
        obtain ⟨rfl, rfl, rfl⟩ := h
        exact ⟨by simp, by simp [htype, horigin], by simp⟩
      · simp only [hc, Except.ok.injEq, Prod.mk.injEq] at h
        obtain ⟨rfl, rfl, rfl⟩ := h
        refine ⟨by simp, by simp, fun _ c' hc' => ?_⟩
        obtain rfl := Option.some.inj hc'
        exact ⟨htype, horigin, worse_iff.mpr ⟨d, hd, hpos⟩⟩
      · rw [hc] at h
        cases hg : groupSearch route r g with
        | error e => simp [hg, Except.map] at h
        | ok x =>
            simp only [hg, Except.map, Except.ok.injEq, Prod.mk.injEq] at h
            obtain ⟨rfl, rfl, rfl⟩ := h
            have hrest : Searched route r x.1 x.2.1 x.2.2 := ih (by simp [hg])
            refine ⟨fun c' hc' htype' => ?_, hrest.same, hrest.stop⟩
            obtain rfl | hc' := List.mem_cons.mp hc'
            · obtain htype | ⟨horigin, -, d, hd, hpos⟩ := hpass
              · exact absurd htype' htype
              · exact ⟨horigin, noWorse_iff.mpr ⟨d, hd, not_lt.mp hpos⟩⟩
            · exact hrest.passed c' hc' htype'

theorem ofType_append (t : UInt8) (l m : List Addr) : ofType route t (l ++ m) = ofType route t l ++ ofType route t m :=
  List.filter_append l m

theorem ofType_cons_of_eq {t : UInt8} {c : Addr} (h : (route c).type = t) (l : List Addr) :
    ofType route t (c :: l) = c :: ofType route t l :=
  List.filter_cons_of_pos (by simpa using h)

theorem mem_ofType {t : UInt8} {l : List Addr} {c : Addr} : c ∈ ofType route t l ↔ c ∈ l ∧ (route c).type = t := by
  simp [ofType]

theorem bestAfter_self : bestAfter best a before old behind a = (before.isEmpty || best a) := by
  simp [bestAfter]

theorem bestAfter_of_ne {c : Addr} (hc : c ≠ a) (hstay : before = [] → old = none → behind.head? ≠ some c) :
    bestAfter best a before old behind c = best c := by
  rw [bestAfter, if_neg hc, if_neg]
  rintro ⟨hbefore, hold, hhead⟩
  exact hstay hbefore hold hhead

theorem head?_append_eq_iff {l m : List Addr} {c : Addr} (hc : c ∉ l) : (l ++ c :: m).head? = some c ↔ l = [] := by
  cases l with
  | nil => simp
  | cons d l => simpa using fun hd : d = c => hc (by simp [hd])

theorem origin_ne_iff {c : Addr} : (route c).path.origin ≠ r.path.origin ↔ isSameOrigin (route c) r = false := by
  simp [isSameOrigin]

theorem not_mem_of_nodup {c : Addr} {l m : List Addr} (h : (l ++ c :: m).Nodup) : c ∉ l ∧ c ∉ m := by
  obtain ⟨-, hm, hdisjoint⟩ := List.nodup_append.mp h
  exact ⟨fun hl => hdisjoint c hl c (by simp) rfl, (List.nodup_cons.mp hm).1⟩

section Suits

variable {b : Bool} {h : Addr} {T : List Addr}

theorem suits_of_nil (hT : ofType route r.type g = []) : Suits route g r b ↔ g = [] ∨ b = true := by
  simp [Suits, hT]

theorem suits_of_same (hT : ofType route r.type g = h :: T) (horigin : isSameOrigin (route h) r = true) :
    Suits route g r b ↔
      isIdentical (route h) r = true ∨ (g.head? = some h ∨ b = true) ∧ ∀ x ∈ T, noWorse r (route x) = true := by
  simp [Suits, hT, horigin]

theorem suits_of_worse (hT : ofType route r.type g = h :: T) (horigin : isSameOrigin (route h) r = false)
    (hworse : worse (route h) r = true) :
    Suits route g r b ↔
      g.head? = some h ∧ ∀ x ∈ T, isSameOrigin (route x) r = false ∧ noWorse r (route x) = true := by
  simp [Suits, hT, horigin, hworse]

theorem suits_of_noWorse (hT : ofType route r.type g = h :: T) (horigin : isSameOrigin (route h) r = false)
    (hle : noWorse (route h) r = true) :
    Suits route g r b ↔
      (∀ o ∈ T.find? fun x => isSameOrigin (route x) r,
        ∀ x ∈ T.takeWhile fun x => !isSameOrigin (route x) r, noWorse (route x) r = true) ∧
      (b = false ∨ ∃ o ∈ T.find? fun x => isSameOrigin (route x) r, isIdentical (route o) r = true) := by
  simp [Suits, hT, horigin, not_worse hle, hle]

theorem suits_of_fail {e : Abort} (hT : ofType route r.type g = h :: T) (horigin : isSameOrigin (route h) r = false)
    (hd : routeCmp (route h) r = .error e) : Suits route g r b := by
  simp [Suits, hT, horigin, worse, noWorse, hd]

end Suits

/-- The first route of a type is replaced. -/
theorem firstIsBest_replaced_first {o : Addr} (hra : route a = r) (hg : g = before ++ o :: behind) (hnd : g.Nodup)
    (ha : a ∉ g) (hs : Searched route r before (some o) behind) (hfirst : FirstIsBest route best (ofType route r.type g))
    (hfront : ofType route r.type before = []) (hnew : isIdentical (route o) r = false) :
    FirstIsBest route (bestAfter best a before (some o) behind) (ofType route r.type (before ++ a :: behind)) ↔
      Suits route g r (best a) := by
  obtain ⟨htype, horigin⟩ := hs.same o rfl
  have hT : ofType route r.type g = o :: ofType route r.type behind := by
    rw [hg, ofType_append, hfront]
    exact ofType_cons_of_eq htype behind
  have hT' : ofType route r.type (before ++ a :: behind) = a :: ofType route r.type behind := by
    rw [ofType_append, hfront]
    exact ofType_cons_of_eq (by rw [hra]) behind
  have hob := (not_mem_of_nodup (hg ▸ hnd)).1
  have hne : ∀ x ∈ ofType route r.type behind, x ≠ a := by
    rintro x hx rfl
    exact ha (by simp [hg, (mem_ofType.mp hx).1])
  have hsame : (route o).path.origin = r.path.origin := beq_iff_eq.mp horigin
  rw [hT] at hfirst
  obtain ⟨-, hothers, hdistinct⟩ := hfirst
  rw [List.pairwise_cons, hsame] at hdistinct
  rw [suits_of_same hT horigin, hnew, hT']
  simp only [FirstIsBest, Bool.false_eq_true, false_or, bestAfter_self, List.pairwise_cons, hra]
  rw [hg, head?_append_eq_iff hob, Bool.or_eq_true, List.isEmpty_iff]
  refine and_congr_right fun _ => ⟨fun h x hx => (h.1 x hx).2, fun h => ⟨fun x hx => ⟨?_, h x hx⟩, hdistinct⟩⟩
  rw [bestAfter_of_ne (hne x hx) (by simp)]
  exact (hothers x hx).1

/-- A route comes before the first one of its type. -/
theorem firstIsBest_inserted_first {c : Addr} (hra : route a = r) (hg : g = before ++ c :: behind) (hnd : g.Nodup)
    (ha : a ∉ g) (hs : Searched route r before none (c :: behind))
    (hfirst : FirstIsBest route best (ofType route r.type g)) (hfront : ofType route r.type before = []) :
    FirstIsBest route (bestAfter best a before none (c :: behind)) (ofType route r.type (before ++ a :: c :: behind)) ↔
      Suits route g r (best a) := by
  obtain ⟨htype, horigin, hworse⟩ := hs.stop rfl c rfl
  have hT : ofType route r.type g = c :: ofType route r.type behind := by
    rw [hg, ofType_append, hfront]
    exact ofType_cons_of_eq htype behind
  have hT' : ofType route r.type (before ++ a :: c :: behind) = a :: c :: ofType route r.type behind := by
    rw [ofType_append, hfront, ofType_cons_of_eq (by rw [hra]), ofType_cons_of_eq htype]
    rfl
  obtain ⟨hcb, hcb'⟩ := not_mem_of_nodup (hg ▸ hnd)
  have hca : c ≠ a := by
    rintro rfl
    exact ha (by simp [hg])
  have hstay : ∀ x ∈ ofType route r.type behind, bestAfter best a before none (c :: behind) x = best x := by
    intro x hx
    have hx := (mem_ofType.mp hx).1
    refine bestAfter_of_ne ?_ fun _ _ hhead => hcb' (Option.some.inj hhead ▸ hx)
    rintro rfl
    exact ha (by simp [hg, hx])
  have hbestc : bestAfter best a before none (c :: behind) c = false ↔ before = [] ∨ best c = false := by
    by_cases hbefore : before = [] <;> simp [bestAfter, hca, hbefore]
  rw [hT] at hfirst
  obtain ⟨hbest, hothers, hdistinct⟩ := hfirst
  rw [suits_of_worse hT horigin hworse, hT']
  simp only [FirstIsBest, bestAfter_self, List.pairwise_cons, hra, List.mem_cons, forall_eq_or_imp, hbestc]
  rw [List.pairwise_cons] at hdistinct
  rw [hg, head?_append_eq_iff hcb, hbest]
  constructor
  · rintro ⟨-, ⟨⟨hbefore, -⟩, hrest⟩, ⟨-, horigins⟩, -⟩
    refine ⟨by simpa using hbefore, fun x hx => ⟨?_, (hrest x hx).2⟩⟩
    exact origin_ne_iff.mp (horigins x hx).symm
  · rintro ⟨rfl, hrest⟩
    refine ⟨rfl, ⟨⟨.inl rfl, noWorse_swap hworse⟩, fun x hx => ⟨?_, (hrest x hx).2⟩⟩,
      ⟨(origin_ne_iff.mpr horigin).symm, fun x hx => (origin_ne_iff.mpr (hrest x hx).1).symm⟩, hdistinct⟩
    rw [hstay x hx]
    exact (hothers x hx).1

/-- The routes that a search passes have other origins. -/
theorem find?_passed {l m : List Addr} (hl : ∀ x ∈ l, isSameOrigin (route x) r = false) :
    ((l ++ m).find? fun x => isSameOrigin (route x) r) = m.find? fun x => isSameOrigin (route x) r := by
  rw [List.find?_append, List.find?_eq_none.mpr, Option.none_or]
  intro x hx
  simp [hl x hx]

/-- The flags of the routes of a type where the new one does not come first. -/
theorem bestAfter_behind (hbefore : before ≠ []) (c : Addr) : bestAfter best a before old behind c = best c := by
  by_cases hca : c = a
  · subst hca
    simp [bestAfter_self, hbefore]
  · exact bestAfter_of_ne hca fun hnil => absurd hnil hbefore

/-- A route of the type is replaced that is not the first one. -/
theorem firstIsBest_replaced_behind {o h : Addr} {T : List Addr} (hra : route a = r) (hg : g = before ++ o :: behind)
    (hs : Searched route r before (some o) behind) (hfirst : FirstIsBest route best (ofType route r.type g))
    (hfront : ofType route r.type before = h :: T) (hnew : isIdentical (route o) r = false) :
    FirstIsBest route (bestAfter best a before (some o) behind) (ofType route r.type (before ++ a :: behind)) ↔
      Suits route g r (best a) := by
  obtain ⟨htype, horigin⟩ := hs.same o rfl
  have hpassed : ∀ x ∈ h :: T, isSameOrigin (route x) r = false ∧ noWorse (route x) r = true := by
    rintro x hx
    rw [← hfront] at hx
    exact hs.passed x (mem_ofType.mp hx).1 (mem_ofType.mp hx).2
  have hT : ofType route r.type g = h :: (T ++ o :: ofType route r.type behind) := by
    rw [hg, ofType_append, hfront, ofType_cons_of_eq htype]
    rfl
  have hT' : ofType route r.type (before ++ a :: behind) = h :: (T ++ a :: ofType route r.type behind) := by
    rw [ofType_append, hfront, ofType_cons_of_eq (by rw [hra])]
    rfl
  have hbefore : before ≠ [] := by
    rintro rfl
    cases hfront
  have hsuits : Suits route g r (best a) ↔ best a = false := by
    have hT₁ : ∀ x ∈ T, isSameOrigin (route x) r = false := fun x hx => (hpassed x (by simp [hx])).1
    have hwhile : ((T ++ o :: ofType route r.type behind).takeWhile fun x => !isSameOrigin (route x) r) = T := by
      rw [List.takeWhile_append_of_pos fun x hx => by simp [hT₁ x hx], List.takeWhile_cons_of_neg (by simp [horigin]),
        List.append_nil]
    have hfind : ((o :: ofType route r.type behind).find? fun x => isSameOrigin (route x) r) = some o :=
      List.find?_cons_of_pos horigin
    rw [suits_of_noWorse hT (hpassed h (by simp)).1 (hpassed h (by simp)).2, find?_passed hT₁, hfind, hwhile]
    have hle : ∀ x ∈ T, noWorse (route x) r = true := fun x hx => (hpassed x (by simp [hx])).2
    simpa [hnew] using fun _ => hle
  rw [hT] at hfirst
  obtain ⟨hbest, hothers, hdistinct⟩ := hfirst
  have hmap : (h :: (T ++ a :: ofType route r.type behind)).map (fun x => (route x).path.origin) =
      (h :: (T ++ o :: ofType route r.type behind)).map fun x => (route x).path.origin := by
    have hsame : (route a).path.origin = (route o).path.origin := by
      rw [hra]
      exact (beq_iff_eq.mp horigin).symm
    simp [hsame]
  have hdistinct' : (h :: (T ++ a :: ofType route r.type behind)).Pairwise fun x y =>
      (route x).path.origin ≠ (route y).path.origin := by
    rw [← List.pairwise_map, hmap, List.pairwise_map]
    exact hdistinct
  rw [hsuits, hT', FirstIsBest]
  simp only [bestAfter_behind hbefore]
  constructor
  · exact fun hall => (hall.2.1 a (by simp)).1
  · refine fun hbesta => ⟨hbest, fun x hx => ?_, hdistinct'⟩
    have hx' : x = a ∨ x ∈ T ++ o :: ofType route r.type behind := by
      simp only [List.mem_append, List.mem_cons] at hx ⊢
      tauto
    obtain rfl | hx' := hx'
    · refine ⟨hbesta, ?_⟩
      rw [hra]
      exact (hpassed h (by simp)).2
    · exact hothers x hx'

/-- A route is put behind the first one of its type. -/
theorem firstIsBest_inserted_behind {h : Addr} {T : List Addr} (hra : route a = r) (hg : g = before ++ behind)
    (hs : Searched route r before none behind) (hfirst : FirstIsBest route best (ofType route r.type g))
    (hfront : ofType route r.type before = h :: T) :
    FirstIsBest route (bestAfter best a before none behind) (ofType route r.type (before ++ a :: behind)) ↔
      Suits route g r (best a) := by
  have hpassed : ∀ x ∈ h :: T, isSameOrigin (route x) r = false ∧ noWorse (route x) r = true := by
    rintro x hx
    rw [← hfront] at hx
    exact hs.passed x (mem_ofType.mp hx).1 (mem_ofType.mp hx).2
  have hT : ofType route r.type g = h :: (T ++ ofType route r.type behind) := by
    rw [hg, ofType_append, hfront]
    rfl
  have hT' : ofType route r.type (before ++ a :: behind) = h :: (T ++ a :: ofType route r.type behind) := by
    rw [ofType_append, hfront, ofType_cons_of_eq (by rw [hra])]
    rfl
  have hbefore : before ≠ [] := by
    rintro rfl
    cases hfront
  have hT₁ : ∀ x ∈ T, isSameOrigin (route x) r = false := fun x hx => (hpassed x (by simp [hx])).1
  have hsuits : Suits route g r (best a) ↔
      best a = false ∧ ∀ x ∈ ofType route r.type behind, isSameOrigin (route x) r = false := by
    rw [suits_of_noWorse hT (hpassed h (by simp)).1 (hpassed h (by simp)).2, find?_passed hT₁]
    cases hfind : (ofType route r.type behind).find? fun x => isSameOrigin (route x) r with
    | none =>
        have hnone := List.find?_eq_none.mp hfind
        have hall : ∀ x ∈ ofType route r.type behind, isSameOrigin (route x) r = false := fun x hx => by
          simpa using hnone x hx
        simpa using fun _ => hall
    | some o =>
        -- the search stops at a worse route, which the condition does not allow
        have ho := List.find?_some hfind
        have hmem := List.mem_of_find?_eq_some hfind
        obtain ⟨c, b, rfl⟩ : ∃ c b, behind = c :: b :=
          List.exists_cons_of_ne_nil (by rintro rfl; simp [ofType] at hmem)
        obtain ⟨htype, horigin, hstop⟩ := hs.stop rfl c rfl
        have hworse := not_noWorse hstop
        have hcwhile : c ∈ (T ++ ofType route r.type (c :: b)).takeWhile fun x => !isSameOrigin (route x) r := by
          rw [List.takeWhile_append_of_pos fun x hx => by simp [hT₁ x hx], ofType_cons_of_eq htype,
            List.takeWhile_cons_of_pos (by simp [horigin])]
          simp
        constructor
        · rintro ⟨hwhile, -⟩
          rw [hwhile o rfl c hcwhile] at hworse
          cases hworse
        · rintro ⟨-, hall⟩
          rw [hall o hmem] at ho
          cases ho
  rw [hT] at hfirst
  obtain ⟨hbest, hothers, hdistinct⟩ := hfirst
  have hperm : (h :: (T ++ a :: ofType route r.type behind)).Perm (a :: h :: (T ++ ofType route r.type behind)) :=
    (List.Perm.cons h List.perm_middle).trans (List.Perm.swap a h _)
  have hsymm : ∀ x y : Addr, (route x).path.origin ≠ (route y).path.origin →
      (route y).path.origin ≠ (route x).path.origin := fun _ _ hne => hne.symm
  rw [hsuits, hT', FirstIsBest, hperm.pairwise_iff (fun {x y} => hsymm x y), List.pairwise_cons]
  simp only [bestAfter_behind hbefore]
  constructor
  · rintro ⟨-, hall, horigins, -⟩
    refine ⟨(hall a (by simp)).1, fun x hx => origin_ne_iff.mp ?_⟩
    rw [← hra]
    exact (horigins x (by simp [hx])).symm
  · rintro ⟨hbesta, hothers'⟩
    refine ⟨hbest, fun x hx => ?_, fun x hx => ?_, hdistinct⟩
    · have hx' : x = a ∨ x ∈ T ++ ofType route r.type behind := by
        simp only [List.mem_append, List.mem_cons] at hx ⊢
        tauto
      obtain rfl | hx' := hx'
      · refine ⟨hbesta, ?_⟩
        rw [hra]
        exact (hpassed h (by simp)).2
      · exact hothers x hx'
    · have horigin : isSameOrigin (route x) r = false := by
        simp only [List.mem_cons, List.mem_append] at hx
        obtain rfl | hx | hx := hx
        · exact (hpassed x (by simp)).1
        · exact hT₁ x hx
        · exact hothers' x hx
      rw [hra]
      exact (origin_ne_iff.mpr horigin).symm

theorem firstIsBest_congr {best' : Addr → Bool} {l : List Addr} (h : ∀ x ∈ l, best' x = best x) :
    FirstIsBest route best' l ↔ FirstIsBest route best l := by
  cases l with
  | nil => exact Iff.rfl
  | cons c l =>
      simp only [FirstIsBest, h c (by simp)]
      refine and_congr_right fun _ => and_congr_left fun _ => forall₂_congr fun x hx => ?_
      rw [h x (by simp [hx])]

/-- Whether the group is as it should be after a route has been put into it depends on the group before. -/
theorem firstIsBest_add_iff (hra : route a = r) (hsearch : groupSearch route r g = .ok (before, old, behind))
    (hnd : g.Nodup) (ha : a ∉ g) (hfirst : FirstIsBest route best (ofType route r.type g))
    (hnew : ∀ o ∈ old, isIdentical (route o) r = false) :
    FirstIsBest route (bestAfter best a before old behind) (ofType route r.type (before ++ a :: behind)) ↔
      Suits route g r (best a) := by
  have hg := groupSearch_eq hsearch
  have hs := searched_of_groupSearch hsearch
  cases hfront : ofType route r.type before with
  | nil =>
      cases old with
      | some o => exact firstIsBest_replaced_first hra hg hnd ha hs hfirst hfront (hnew o rfl)
      | none =>
          cases behind with
          | cons c behind => exact firstIsBest_inserted_first hra hg hnd ha hs hfirst hfront
          | nil =>
              have hT : ofType route r.type g = [] := by simpa [hg] using hfront
              have hT' : ofType route r.type (before ++ [a]) = [a] := by
                rw [ofType_append, hfront, ofType_cons_of_eq (by rw [hra])]
                rfl
              rw [hT']
              rw [suits_of_nil hT, FirstIsBest, bestAfter_self]
              simp [hg]
  | cons h T =>
      cases old with
      | some o => exact firstIsBest_replaced_behind hra hg hs hfirst hfront (hnew o rfl)
      | none => exact firstIsBest_inserted_behind hra hg hs hfirst hfront

/-- The groups of the other types. -/
theorem firstIsBest_add_other {t : UInt8} (hra : route a = r) (hsearch : groupSearch route r g = .ok (before, old, behind))
    (ha : a ∉ g) (ht : r.type ≠ t) (hfirst : FirstIsBest route best (ofType route t g)) :
    FirstIsBest route (bestAfter best a before old behind) (ofType route t (before ++ a :: behind)) := by
  have hg := groupSearch_eq hsearch
  have hs := searched_of_groupSearch hsearch
  have hold : ofType route t old.toList = [] := by
    cases old with
    | none => rfl
    | some o => simp [ofType, (hs.same o rfl).1, ht]
  have hT : ofType route t (before ++ a :: behind) = ofType route t g := by
    rw [hg, ofType_append, ofType_append, ofType_append, hold, List.nil_append, ofType, ofType, ofType,
      List.filter_cons_of_neg (by simpa [hra] using ht)]
  rw [hT, firstIsBest_congr fun x hx => ?_]
  · exact hfirst
  · obtain ⟨hxg, hxt⟩ := mem_ofType.mp hx
    refine bestAfter_of_ne (fun hxa => ha (hxa ▸ hxg)) fun _ hnone hhead => ht ?_
    rw [← (hs.stop hnone x hhead).1, hxt]

/-- A route that says what one of the group says suits it if the search finds that one. -/
theorem suits_of_identical {o : Addr} {b : Bool} (hsearch : groupSearch route r g = .ok (before, some o, behind))
    (hid : isIdentical (route o) r = true) : Suits route g r b := by
  have hg := groupSearch_eq hsearch
  have hs := searched_of_groupSearch hsearch
  obtain ⟨htype, horigin⟩ := hs.same o rfl
  have hT : ofType route r.type g = ofType route r.type before ++ o :: ofType route r.type behind := by
    rw [hg, ofType_append]
    exact congrArg _ (ofType_cons_of_eq htype behind)
  cases hfront : ofType route r.type before with
  | nil =>
      rw [hfront, List.nil_append] at hT
      exact (suits_of_same hT horigin).mpr (.inl hid)
  | cons h T =>
      rw [hfront, List.cons_append] at hT
      have hpassed : ∀ x ∈ h :: T, isSameOrigin (route x) r = false ∧ noWorse (route x) r = true := by
        rintro x hx
        rw [← hfront] at hx
        exact hs.passed x (mem_ofType.mp hx).1 (mem_ofType.mp hx).2
      have hT₁ : ∀ x ∈ T, isSameOrigin (route x) r = false := fun x hx => (hpassed x (by simp [hx])).1
      have hfind : ((o :: ofType route r.type behind).find? fun x => isSameOrigin (route x) r) = some o :=
        List.find?_cons_of_pos horigin
      have hwhile : ((T ++ o :: ofType route r.type behind).takeWhile fun x => !isSameOrigin (route x) r) = T := by
        rw [List.takeWhile_append_of_pos fun x hx => by simp [hT₁ x hx],
          List.takeWhile_cons_of_neg (by simp [horigin]), List.append_nil]
      rw [suits_of_noWorse hT (hpassed h (by simp)).1 (hpassed h (by simp)).2, find?_passed hT₁, hfind, hwhile]
      exact ⟨fun _ _ x hx => (hpassed x (by simp [hx])).2, .inr ⟨o, rfl, hid⟩⟩

/-- Where a search fails in `ospf6_route_cmp`. -/
theorem groupSearch_error_split {e : Abort} (h : groupSearch route r g = .error e) :
    ∃ before c behind, g = before ++ c :: behind ∧
      (∀ x ∈ before, (route x).type = r.type → isSameOrigin (route x) r = false ∧ noWorse (route x) r = true) ∧
      (route c).type = r.type ∧ isSameOrigin (route c) r = false ∧ routeCmp (route c) r = .error .routeCmp := by
  induction g with
  | nil => simp [groupSearch] at h
  | cons c g ih =>
      obtain ⟨-, horigin, htype, hd⟩ | ⟨hc, -⟩ | ⟨hc, -⟩ | ⟨hc, hpass⟩ := groupSearch_cons route r c g
      · exact ⟨[], c, g, rfl, by simp, htype, horigin, hd⟩
      · simp [hc] at h
      · simp [hc] at h
      · rw [hc] at h
        cases hg : groupSearch route r g with
        | ok x => simp [hg, Except.map] at h
        | error e' =>
            simp only [hg, Except.map, Except.error.injEq] at h
            obtain ⟨before, c', behind, rfl, hpassed, hrest⟩ := ih (by rw [hg, h])
            refine ⟨c :: before, c', behind, rfl, fun x hx htype' => ?_, hrest⟩
            obtain rfl | hx := List.mem_cons.mp hx
            · obtain htype | ⟨horigin, -, d, hd, hpos⟩ := hpass
              · exact absurd htype' htype
              · exact ⟨horigin, noWorse_iff.mpr ⟨d, hd, not_lt.mp hpos⟩⟩
            · exact hpassed x hx htype'

/-- A search fails at the first route of the type, or not at all. -/
theorem suits_of_error {e : Abort} {b : Bool} (hsearch : groupSearch route r g = .error e)
    (hfirst : FirstIsBest route best (ofType route r.type g)) : Suits route g r b := by
  obtain ⟨before, c, behind, rfl, hpassed, htype, horigin, hd⟩ := groupSearch_error_split hsearch
  have hT : ofType route r.type (before ++ c :: behind) =
      ofType route r.type before ++ c :: ofType route r.type behind := by
    rw [ofType_append, ofType_cons_of_eq htype]
  cases hfront : ofType route r.type before with
  | nil =>
      rw [hfront, List.nil_append] at hT
      exact suits_of_fail hT horigin hd
  | cons h T =>
      have hh : h ∈ ofType route r.type before := by simp [hfront]
      have hr := (typed_of_noWorse (hpassed h (mem_ofType.mp hh).1 (mem_ofType.mp hh).2).2).2
      rw [hT, hfront] at hfirst
      have hc := (typed_of_noWorse (hfirst.2.1 c (by simp)).2).2
      exact absurd ⟨hc, hr⟩ (routeCmp_error hd).2

/-! ### Removal -/

/-- Which routes are marked as the best after one has been taken out of a group. -/
def bestWithout (best : Addr → Bool) (before behind : List Addr) (c : Addr) : Bool :=
  if before = [] ∧ behind.head? = some c then true else best c

/-- The groups of the other types. -/
theorem firstIsBest_remove_other {t : UInt8} (hg : g = before ++ a :: behind) (ht : (route a).type ≠ t)
    (hfirst : FirstIsBest route best (ofType route t g)) :
    FirstIsBest route (bestWithout best before behind) (ofType route t (before ++ behind)) := by
  have hT : ofType route t (before ++ behind) = ofType route t g := by
    simp [hg, ofType, ht]
  rw [hT]
  refine (firstIsBest_congr fun x hx => ?_).mpr hfirst
  rw [bestWithout]
  split
  · next hhead =>
      -- the route that comes first now has been the first one of its type
      obtain ⟨rfl, hhead⟩ := hhead
      obtain ⟨b, rfl⟩ : ∃ b, behind = x :: b := List.head?_eq_some_iff.mp hhead
      rw [← hT, List.nil_append, ofType_cons_of_eq (mem_ofType.mp hx).2] at hfirst
      exact hfirst.1.symm
  · rfl

/-- The group of the type of the route. -/
theorem firstIsBest_remove_iff (hg : g = before ++ a :: behind) (hnd : g.Nodup)
    (hfirst : FirstIsBest route best (ofType route (route a).type g)) :
    FirstIsBest route (bestWithout best before behind) (ofType route (route a).type (before ++ behind)) ↔
      Spares route g a := by
  have hT : ofType route (route a).type g =
      ofType route (route a).type before ++ a :: ofType route (route a).type behind := by
    rw [hg, ofType_append, ofType_cons_of_eq rfl]
  rw [hg] at hnd
  obtain ⟨hab, hab'⟩ := not_mem_of_nodup hnd
  rw [ofType_append]
  cases hfront : ofType route (route a).type before with
  | cons h T =>
      have hbefore : before ≠ [] := by
        rintro rfl
        cases hfront
      have hha : h ≠ a := by
        rintro rfl
        exact hab (mem_ofType.mp (hfront ▸ List.mem_cons_self : h ∈ ofType route (route h).type before)).1
      rw [hfront] at hT
      have hspares : Spares route g a := by
        simp only [Spares, hT, List.cons_append, List.head?_cons, Option.some.injEq]
        exact fun heq => absurd heq hha
      rw [hT] at hfirst
      obtain ⟨hbest, hothers, hdistinct⟩ := hfirst
      have hsub : (T ++ ofType route (route a).type behind).Sublist (T ++ a :: ofType route (route a).type behind) :=
        List.Sublist.append_left (List.sublist_cons_self _ _) _
      have hstay : ∀ x, bestWithout best before behind x = best x := fun x => if_neg fun hno => hbefore hno.1
      rw [firstIsBest_congr fun x _ => hstay x]
      exact iff_of_true ⟨hbest, fun x hx => hothers x (hsub.subset hx), hdistinct.sublist (hsub.cons_cons h)⟩ hspares
  | nil =>
      rw [hfront, List.nil_append] at hT
      rw [List.nil_append]
      cases hbehind : ofType route (route a).type behind with
      | nil =>
          rw [hbehind] at hT
          simp [FirstIsBest, Spares, hT]
      | cons c T =>
          rw [hbehind] at hT
          rw [hT] at hfirst
          obtain ⟨-, hothers, hdistinct⟩ := hfirst
          have htake_iff : g.take 2 = [a, c] ↔ before = [] ∧ behind.head? = some c := by
            rw [hg]
            cases before with
            | nil => cases behind <;> simp
            | cons d before =>
                have hda : d ≠ a := fun hda => hab (by simp [hda])
                simp [hda]
          have hbestc : bestWithout best before behind c = true ↔ g.take 2 = [a, c] := by
            simp [htake_iff, bestWithout, (hothers c (by simp)).1]
          have hcT : c ∉ T := by
            have hnd' : (ofType route (route a).type behind).Nodup :=
              ((List.nodup_append.mp hnd).2.1.of_cons).filter _
            rw [hbehind] at hnd'
            exact (List.nodup_cons.mp hnd').1
          have hspares : Spares route g a ↔
              g.take 2 = [a, c] ∧ ∀ x ∈ T, noWorse (route c) (route x) = true := by
            simp [Spares, hT]
          rw [hspares, FirstIsBest, hbestc]
          refine and_congr_right fun htake => ⟨fun hall x hx => (hall.1 x hx).2, fun hall => ⟨fun x hx => ⟨?_, hall x hx⟩,
            hdistinct.of_cons⟩⟩
          have hhead : behind.head? ≠ some x := by
            intro hhead
            rw [(htake_iff.mp htake).2, Option.some.injEq] at hhead
            exact hcT (hhead ▸ hx)
          rw [bestWithout, if_neg fun hno => hhead hno.2]
          exact (hothers x (by simp [hx])).1

end Search

section Step

variable {s s' : Rtable} {gs : List (List Bool × List Addr)} {a : Addr} {p : List Bool}

theorem routesFrom_eq {l g rest : List Addr} {n : Nat} (hlinked : Linked s.next s.prev (l ++ (g ++ rest)))
    (hg : ∀ c ∈ g, (s.route c).dest = p) (hrest : ∀ c ∈ rest.head?, (s.route c).dest ≠ p) (hn : g.length ≤ n) :
    routesFrom s p n (g ++ rest).head? = g := by
  induction g generalizing l n with
  | nil =>
      cases n with
      | zero => rfl
      | succ n =>
          cases rest with
          | nil => rfl
          | cons c rest => exact if_neg (hrest c rfl)
  | cons c g ih =>
      obtain ⟨n, rfl⟩ : ∃ k, n = k + 1 := ⟨n - 1, by simp at hn; omega⟩
      have hnext : s.next c = (g ++ rest).head? := by
        have hl : Linked s.next s.prev (l ++ c :: (g ++ rest)) := by simpa using hlinked
        exact hl.neighbours.2
      have hih :=
        ih (l := l ++ [c]) (n := n) (by simpa using hlinked) (fun d hd => hg d (by simp [hd])) (by simpa using hn)
      rw [List.cons_append, List.head?_cons, routesFrom, if_pos (hg c (by simp)), hnext, hih]

/-- The routes with a prefix are its group. -/
theorem Shape.routesOf (h : Shape s gs) (p : List Bool) : routesOf s p = groupAt gs p := by
  obtain ⟨-, -, A, M, B, -, rfl, -, -, hpw, hM⟩ := h.place p
  obtain ⟨hneA, hneB⟩ := ne_of_pairwise hpw
  obtain ⟨rfl, hnone⟩ | ⟨g, rfl, hg, hinfo⟩ := hM
  · have hat : groupAt (A ++ ([] ++ B)) p = [] := by simpa [group] using groupAt_self (g := []) hneA hneB
    rw [hat, Routes.routesOf, hnone]
    cases s.count <;> rfl
  · have hat : groupAt (A ++ ([(p, g)] ++ B)) p = g := by
      simpa [group, hg] using groupAt_self (g := g) hneA hneB
    have hchain : chain (A ++ ([(p, g)] ++ B)) = chain A ++ (g ++ chain B) := by simp
    have hlinked := h.linked
    rw [hchain] at hlinked
    have hhead : (g ++ chain B).head? = g.head? := List.head?_append_of_ne_nil _ hg
    rw [hat, Routes.routesOf, hinfo, ← hhead]
    refine routesFrom_eq hlinked (h.dest (p, g) (by simp)) (h.dest_behind hpw) ?_
    rw [h.count, hchain]
    simp
    omega

theorem firstIsBest_congr_route {route route' : Addr → Route} {best best' : Addr → Bool} {t : UInt8} {g : List Addr}
    (hroute : ∀ x ∈ g, route' x = route x) (hbest : ∀ x ∈ g, best' x = best x) :
    FirstIsBest route' best' (ofType route' t g) ↔ FirstIsBest route best (ofType route t g) := by
  have hT : ofType route' t g = ofType route t g := List.filter_congr fun x hx => by rw [hroute x hx]
  rw [hT]
  have hroute' : ∀ x ∈ ofType route t g, route' x = route x := fun x hx => hroute x (mem_ofType.mp hx).1
  have hbest' : ∀ x ∈ ofType route t g, best' x = best x := fun x hx => hbest x (mem_ofType.mp hx).1
  cases hl : ofType route t g with
  | nil => exact Iff.rfl
  | cons h T =>
      rw [hl] at hroute' hbest'
      simp only [FirstIsBest, hroute' h (by simp), hbest' h (by simp)]
      refine and_congr_right fun _ => and_congr (forall₂_congr fun x hx => ?_) ?_
      · rw [hroute' x (by simp [hx]), hbest' x (by simp [hx])]
      · refine List.Pairwise.iff_of_mem fun {x y} hx hy => ?_
        rw [hroute' x hx, hroute' y hy]

theorem Rep.ne_of_mem_groupAt (h : Rep s none gs) (hf : Fresh s a) {x : Addr} (hx : x ∈ groupAt gs p) : x ≠ a := by
  rintro rfl
  rw [h.groupAt_eq] at hx
  exact hf.not_mem h.toShape (List.mem_of_mem_filter hx)

/-- A route that is created leaves the groups as they are. -/
theorem Rep.bestFirst_create (h : Rep s none gs) (ha : s.live a = false) (r : Route) (f : Flags) (hbest : BestFirst s) :
    BestFirst (routeCreate s a r f) := by
  obtain ⟨hrep, hfresh⟩ := h.create ha r f
  intro p t
  have hne : ∀ x ∈ groupAt gs p, x ≠ a := fun x hx => hrep.ne_of_mem_groupAt hfresh hx
  have hp := hbest p t
  rw [h.toShape.routesOf] at hp
  rw [hrep.toShape.routesOf]
  refine (firstIsBest_congr_route (fun x hx => ?_) fun x hx => ?_).mpr hp
  · exact Function.update_of_ne (hne x hx) _ _
  · exact congrArg Flags.best (Function.update_of_ne (hne x hx) _ _)

/-- The ways an addition ends: in `ospf6_route_cmp`, at a route that says the same, or with the route in its group. -/
theorem Rep.add_group (h : Rep s none gs) (hf : Fresh s a) :
    (∃ e, groupSearch s.route (s.route a) (groupAt gs (s.route a).dest) = .error e ∧ routeAdd s a = .error e) ∨
    (∃ s' gs' before o behind,
      groupSearch s.route (s.route a) (groupAt gs (s.route a).dest) = .ok (before, some o, behind) ∧
      isIdentical (s.route o) (s.route a) = true ∧ routeAdd s a = .ok (s', o) ∧ o ≠ a ∧ Rep s' none gs' ∧
      s'.route = s.route ∧ (∀ p, groupAt gs' p = groupAt gs p) ∧ ∀ c, (s'.flag c).best = (s.flag c).best) ∨
    ∃ s' gs' before old behind,
      groupSearch s.route (s.route a) (groupAt gs (s.route a).dest) = .ok (before, old, behind) ∧
      (∀ o ∈ old, isIdentical (s.route o) (s.route a) = false) ∧ routeAdd s a = .ok (s', a) ∧ Rep s' none gs' ∧
      s'.route = s.route ∧ groupAt gs' (s.route a).dest = before ++ a :: behind ∧
      (∀ p, p ≠ (s.route a).dest → groupAt gs' p = groupAt gs p) ∧
      ∀ c, (s'.flag c).best = bestAfter (fun c => (s.flag c).best) a before old behind c := by
  obtain ⟨herror, hok⟩ := h.add_best hf
  cases hs : groupSearch s.route (s.route a) (groupAt gs (s.route a).dest) with
  | error e => exact .inl ⟨e, rfl, herror e hs⟩
  | ok x =>
      obtain ⟨before, old, behind⟩ := x
      obtain ⟨s', r, gs', hadd, hadded, hflag⟩ := hok before old behind hs
      by_cases hid : ∃ o ∈ old, isIdentical (s.route o) (s.route a) = true
      · obtain ⟨o, ho, hid⟩ := hid
        cases ho
        obtain ⟨rfl, hsame, -⟩ := hadded.same o rfl hid
        have hra : r ≠ a := h.ne_of_mem_groupAt hf (p := (s.route a).dest) (by rw [groupSearch_eq hs]; simp)
        refine .inr (.inl ⟨s', gs', before, r, behind, rfl, hid, hadd, hra, hadded.rep, hadded.route, fun p => ?_,
          fun c => ?_⟩)
        · by_cases hp : p = (s.route a).dest
          · rw [hp, hsame]
          · exact hadded.others p hp
        · rw [hflag, if_neg hra]
      · have hnew : ∀ o ∈ old, isIdentical (s.route o) (s.route a) = false := by
          intro o ho
          by_contra hno
          exact hid ⟨o, ho, by simpa using hno⟩
        obtain ⟨rfl, hgroup⟩ : r = a ∧ groupAt gs' (s.route a).dest = before ++ a :: behind := by
          cases old with
          | none => exact ⟨(hadded.new rfl).1, (hadded.new rfl).2.1⟩
          | some o => exact ⟨(hadded.changed o rfl (hnew o rfl)).1, (hadded.changed o rfl (hnew o rfl)).2.1⟩
        refine .inr (.inr ⟨s', gs', before, old, behind, rfl, hnew, hadd, hadded.rep, hadded.route, hgroup,
          hadded.others, fun c => ?_⟩)
        rw [hflag, if_pos rfl]

/-- An addition keeps the first routes the best ones if and only if the route suits the others. -/
theorem Rep.bestFirst_add (h : Rep s none gs) (hf : Fresh s a) (hbest : BestFirst s) :
    ((∃ e, routeAdd s a = .error e) ∧ Suits s.route (routesOf s (s.route a).dest) (s.route a) (s.flag a).best) ∨
    ∃ s' r gs', routeAdd s a = .ok (s', r) ∧ Rep s' none gs' ∧
      (BestFirst s' ↔ Suits s.route (routesOf s (s.route a).dest) (s.route a) (s.flag a).best) := by
  have hne : ∀ p, ∀ x ∈ groupAt gs p, x ≠ a := fun p x hx => h.ne_of_mem_groupAt hf hx
  have hfirst : ∀ p t, FirstIsBest s.route (fun c => (s.flag c).best) (ofType s.route t (groupAt gs p)) := by
    intro p t
    rw [← h.toShape.routesOf]
    exact hbest p t
  rw [h.toShape.routesOf]
  obtain ⟨e, hs, hadd⟩ | ⟨s', gs', before, o, behind, hs, hid, hadd, -, hrep, hroute, hgroup, hflag⟩ |
    ⟨s', gs', before, old, behind, hs, hnew, hadd, hrep, hroute, hgroup, hother, hflag⟩ := h.add_group hf
  · exact .inl ⟨⟨e, hadd⟩, suits_of_error hs (hfirst _ _)⟩
  · refine .inr ⟨s', o, gs', hadd, hrep, iff_of_true (fun p t => ?_) (suits_of_identical hs hid)⟩
    rw [hrep.toShape.routesOf, hgroup, hroute]
    exact (firstIsBest_congr_route (fun _ _ => rfl) fun x _ => hflag x).mpr (hfirst p t)
  · refine .inr ⟨s', a, gs', hadd, hrep, ?_⟩
    have hflag' : (fun c => (s'.flag c).best) = bestAfter (fun c => (s.flag c).best) a before old behind :=
      funext hflag
    have hnd : (groupAt gs (s.route a).dest).Nodup := by
      rw [h.groupAt_eq]
      exact h.nodup.filter _
    rw [← firstIsBest_add_iff rfl hs hnd (fun hr => hne _ a hr rfl) (hfirst _ _) hnew]
    constructor
    · intro hall
      have hdest := hall (s.route a).dest (s.route a).type
      rwa [hrep.toShape.routesOf, hgroup, hroute, hflag'] at hdest
    · intro hdest p t
      rw [hrep.toShape.routesOf, hroute, hflag']
      by_cases hp : p = (s.route a).dest
      · subst hp
        rw [hgroup]
        by_cases ht : t = (s.route a).type
        · subst ht
          exact hdest
        · exact firstIsBest_add_other rfl hs (fun hr => hne _ a hr rfl) (Ne.symm ht) (hfirst _ _)
      · rw [hother p hp]
        refine (firstIsBest_congr_route (fun _ _ => rfl) fun x hx => ?_).mpr (hfirst p t)
        refine bestAfter_of_ne (hne p x hx) fun _ _ hhead => hp ?_
        have hx' : x ∈ groupAt gs (s.route a).dest := by
          rw [groupSearch_eq hs]
          simp [List.mem_of_mem_head? hhead]
        rw [h.groupAt_eq] at hx hx'
        exact (beq_iff_eq.mp (List.mem_filter.mp hx).2).symm.trans (beq_iff_eq.mp (List.mem_filter.mp hx').2)

/-- Which routes are marked as the best after the first one of a group has gone, or another one. -/
theorem dropFirst_best {B : List (List Bool × List Addr)} {before behind : List Addr} {b : List Bool}
    (hinfo : s.table.info b = (before ++ a :: behind).head?) (hna : a ∉ before)
    (hnext : s.next a = (behind ++ chain B).head?) (hbehind : ∀ c ∈ behind, (s.route c).dest = (s.route a).dest)
    (hB : ∀ c ∈ (chain B).head?, (s.route c).dest ≠ (s.route a).dest) (c : Addr) :
    ((dropFirst s b a).flag c).best = bestWithout (fun c => (s.flag c).best) before behind c := by
  cases before with
  | cons d before =>
      have hda : d ≠ a := fun hda => hna (by simp [hda])
      rw [dropFirst, if_neg (by simpa [hinfo] using hda)]
      simp [bestWithout]
  | nil =>
      rw [List.nil_append, List.head?_cons] at hinfo
      rw [dropFirst, if_pos hinfo, hnext]
      cases behind with
      | nil =>
          cases hhead : (chain B).head? with
          | none => simp [hhead, bestWithout]
          | some d =>
              have hne : isSame (s.route d) (s.route a) = false := by simpa [isSame] using hB d hhead
              simp [hhead, hne, bestWithout]
      | cons d behind =>
          have hsame : isSame (s.route d) (s.route a) = true := by simpa [isSame] using hbehind d (by simp)
          simp only [List.cons_append, List.head?_cons, hsame, if_true]
          by_cases hcd : c = d
          · subst hcd
            simp [setBest, setFlag, bestWithout]
          · simp [setBest, setFlag, bestWithout, hcd, Ne.symm hcd]

/-- A removal takes the route out of its group, and leaves the other groups. -/
theorem Rep.remove_group (h : Rep s none gs) (ha : a ∈ groupAt gs (s.route a).dest) :
    ∃ s' gs' before behind, groupAt gs (s.route a).dest = before ++ a :: behind ∧ routeRemove s a = .ok s' ∧
      Rep s' none gs' ∧ s'.route = s.route ∧ groupAt gs' (s.route a).dest = before ++ behind ∧
      (∀ p, p ≠ (s.route a).dest → groupAt gs' p = groupAt gs p) ∧
      ∀ c, c ≠ a → (s'.flag c).best = bestWithout (fun c => (s.flag c).best) before behind c := by
  obtain ⟨before, behind, hg⟩ := List.append_of_mem ha
  obtain ⟨-, -, A, M, B, -, rfl, -, -, hpw, hM⟩ := h.toShape.place (s.route a).dest
  obtain ⟨hneA, hneB⟩ := ne_of_pairwise hpw
  obtain ⟨rfl, -⟩ | ⟨g, rfl, hgne, hinfo⟩ := hM
  · have hat : groupAt (A ++ ([] ++ B)) (s.route a).dest = [] := by simpa [group] using groupAt_self (g := []) hneA hneB
    rw [hat] at hg
    simp at hg
  · have hat : groupAt (A ++ ([((s.route a).dest, g)] ++ B)) (s.route a).dest = g := by
      simpa [group, hgne] using groupAt_self (g := g) hneA hneB
    rw [hat] at hg
    subst hg
    have hchain : chain (A ++ ([((s.route a).dest, before ++ a :: behind)] ++ B)) =
        (chain A ++ before) ++ a :: (behind ++ chain B) := by simp
    have hnd := h.nodup
    rw [hchain] at hnd
    have hna := not_mem_of_nodup hnd
    have hlinked := h.linked
    rw [hchain] at hlinked
    obtain ⟨s', gs', hrem, hrep, hgs', -, hroute, -, -, hflag⟩ := h.remove_best hchain
    refine ⟨s', gs', before, behind, hat, hrem, hrep, hroute, ?_, fun p hp => ?_, fun c hc => ?_⟩
    · rw [h.groupAt_eq, hchain, List.filter_append, List.filter_cons_of_pos (by simp)] at hat
      have hsplit := (List.append_cons_inj_of_notMem (fun hm => hna.1 (List.mem_of_mem_filter hm))
        (fun hm => hna.2 (List.mem_of_mem_filter hm))).mp hat
      rw [hrep.groupAt_eq, hgs', hroute, List.filter_append, hsplit.1, hsplit.2.2]
    · rw [hrep.groupAt_eq, h.groupAt_eq, hgs', hchain, hroute]
      have hnot : ((s.route a).dest == p) = false := by simpa using Ne.symm hp
      simp only [List.filter_append, List.filter_cons, hnot, Bool.false_eq_true, if_false]
    · rw [hflag c hc]
      refine dropFirst_best hinfo (fun hm => hna.1 (by simp [hm])) hlinked.neighbours.2 (fun d hd => ?_)
        (h.toShape.dest_behind hpw) c
      exact h.dest ((s.route a).dest, before ++ a :: behind) (by simp) d (by simp [hd])

/-- A removal keeps the first routes the best ones if and only if the next one may take the place of the one that
goes. -/
theorem Rep.bestFirst_remove (h : Rep s none gs) (ha : a ∈ routesOf s (s.route a).dest) (hbest : BestFirst s) :
    ∃ s' gs', routeRemove s a = .ok s' ∧ Rep s' none gs' ∧
      (BestFirst s' ↔ Spares s.route (routesOf s (s.route a).dest) a) := by
  have hfirst : ∀ p t, FirstIsBest s.route (fun c => (s.flag c).best) (ofType s.route t (groupAt gs p)) := by
    intro p t
    rw [← h.toShape.routesOf]
    exact hbest p t
  rw [h.toShape.routesOf] at ha ⊢
  obtain ⟨s', gs', before, behind, hat, hrem, hrep, hroute, hsame, hother, hflag⟩ := h.remove_group ha
  have hnd : (before ++ a :: behind).Nodup := by
    rw [← hat, h.groupAt_eq]
    exact h.nodup.filter _
  have hdest : ∀ c ∈ before ++ a :: behind, (s.route c).dest = (s.route a).dest := by
    intro c hc
    rw [← hat, h.groupAt_eq] at hc
    exact beq_iff_eq.mp (List.mem_filter.mp hc).2
  have hne : ∀ x ∈ before ++ behind, x ≠ a := by
    rintro x hx rfl
    have hx' := not_mem_of_nodup hnd
    exact (List.mem_append.mp hx).elim hx'.1 hx'.2
  have hfirst_at := hfirst (s.route a).dest
  rw [hat] at hfirst_at ⊢
  refine ⟨s', gs', hrem, hrep, ?_⟩
  rw [← firstIsBest_remove_iff rfl hnd (hfirst_at _)]
  constructor
  · intro hall
    have hdest' := hall (s.route a).dest (s.route a).type
    rw [hrep.toShape.routesOf, hsame, hroute] at hdest'
    exact (firstIsBest_congr_route (fun _ _ => rfl) fun x hx => hflag x (hne x hx)).mp hdest'
  · intro hdest' p t
    rw [hrep.toShape.routesOf, hroute]
    by_cases hp : p = (s.route a).dest
    · subst hp
      rw [hsame]
      refine (firstIsBest_congr_route (fun _ _ => rfl) fun x hx => hflag x (hne x hx)).mpr ?_
      by_cases ht : (s.route a).type = t
      · subst ht
        exact hdest'
      · exact firstIsBest_remove_other rfl ht (hfirst_at t)
    · rw [hother p hp]
      refine (firstIsBest_congr_route (fun _ _ => rfl) fun x hx => ?_).mpr (hfirst p t)
      rw [h.groupAt_eq] at hx
      have hxp : (s.route x).dest = p := beq_iff_eq.mp (List.mem_filter.mp hx).2
      have hxa : x ≠ a := by
        rintro rfl
        exact hp hxp.symm
      rw [hflag x hxa, bestWithout, if_neg]
      rintro ⟨-, hhead⟩
      exact hp (hxp.symm.trans (hdest x (by simp [List.mem_of_mem_head? hhead])))

end Step

/-- A change of a table: a route is created and added, or removed. -/
inductive Change where
  | add (a : Addr) (r : Route) (f : Flags)
  | remove (a : Addr)

def Change.op : Change → Op
  | .add a r f => .add a r f
  | .remove a => .remove a

/-- A table that is changed, step by step. -/
def changes : Machine Rtable Change Empty where
  step s e := ⟨[], (step s e.op).toOption⟩

/-- A route is created where nothing is allocated, and removed if it is in the table. -/
def Change.Legal (s : Rtable) : Change → Prop
  | .add a _ _ => s.live a = false
  | .remove a => a ∈ routesOf s (s.route a).dest

instance (s : Rtable) : (e : Change) → Decidable (e.Legal s)
  | .add a _ _ => inferInstanceAs (Decidable (s.live a = false))
  | .remove a => inferInstanceAs (Decidable (a ∈ routesOf s (s.route a).dest))

/-- The change does not put a route out of order. -/
def Change.Orderly (s : Rtable) : Change → Prop
  | .add a r f => Suits (routeCreate s a r f).route (routesOf (routeCreate s a r f) r.dest) r f.best
  | .remove a => Spares s.route (routesOf s (s.route a).dest) a

theorem bestFirst_empty : BestFirst empty := by
  intro p t
  rw [empty_rep.toShape.routesOf]
  trivial

/-- What a change does to a table in which the first routes are the best ones. -/
theorem Rep.change {s : Rtable} {gs : List (List Bool × List Addr)} (h : Rep s none gs) (hbest : BestFirst s)
    {e : Change} (hlegal : e.Legal s) :
    ((changes.step s e).result = none ∧ e.Orderly s) ∨
    ∃ s' gs', (changes.step s e).result = some s' ∧ Rep s' none gs' ∧ (BestFirst s' ↔ e.Orderly s) := by
  cases e with
  | add a r f =>
      obtain ⟨hrep, hfresh⟩ := h.create hlegal r f
      have hroute : (routeCreate s a r f).route a = r := by simp [routeCreate]
      have hflag : (routeCreate s a r f).flag a = f := by simp [routeCreate]
      have hadd := hrep.bestFirst_add hfresh (h.bestFirst_create hlegal r f hbest)
      rw [hroute, hflag] at hadd
      obtain ⟨⟨e, he⟩, hsuits⟩ | ⟨s', r', gs', hadd, hrep', hiff⟩ := hadd
      · exact .inl ⟨by simp [changes, Change.op, step, he, Except.map, Except.toOption], hsuits⟩
      · exact .inr ⟨s', gs', by simp [changes, Change.op, step, hadd, Except.map, Except.toOption], hrep', hiff⟩
  | remove a =>
      obtain ⟨s', gs', hrem, hrep', hiff⟩ := h.bestFirst_remove hlegal hbest
      exact .inr ⟨s', gs', by simp [changes, Change.op, step, hrem, Except.toOption], hrep', hiff⟩

/-- In every state of a run the first routes are the best ones, if and only if every change is orderly. -/
theorem bestFirst_iff_orderly (es : List Change) (hlegal : changes.AllSteps (fun s e => e.Legal s) empty es) :
    changes.Throughout BestFirst empty es ↔ changes.AllSteps (fun s e => e.Orderly s) empty es := by
  refine changes.throughout_iff_of_legal (J := fun s => (∃ gs, Rep s none gs) ∧ BestFirst s) (fun s h => h.2) ?_ ?_
    ⟨⟨[], empty_rep⟩, bestFirst_empty⟩ hlegal
  · rintro s e s' ⟨⟨gs, hrep⟩, hbest⟩ hlegal horderly hstep
    obtain ⟨hnone, -⟩ | ⟨t, gs', ht, hrep', hiff⟩ := hrep.change hbest hlegal
    · rw [hnone] at hstep
      cases hstep
    · rw [ht] at hstep
      cases hstep
      exact ⟨⟨gs', hrep'⟩, hiff.mpr horderly⟩
  · rintro s e ⟨⟨gs, hrep⟩, hbest⟩ hlegal hnot
    obtain ⟨-, horderly⟩ | ⟨t, gs', ht, -, hiff⟩ := hrep.change hbest hlegal
    · exact absurd horderly hnot
    · exact ⟨t, ht, fun hfirst => hnot (hiff.mp hfirst)⟩

instance (s : Rtable) : (e : Change) → Decidable (e.Orderly s)
  | .add a r f =>
    inferInstanceAs (Decidable (Suits (routeCreate s a r f).route (routesOf (routeCreate s a r f) r.dest) r f.best))
  | .remove a => inferInstanceAs (Decidable (Spares s.route (routesOf s (s.route a).dest) a))

/-- Two routes with one prefix, the second better than the first, which is then made the best again. -/
def orderlyChanges : List Change :=
  [.add 0 (sampleRoute [true, false] 1 10) default, .add 1 (sampleRoute [true, false] 2 5) default,
    .add 2 (sampleRoute [true] 1 7) default, .remove 1]

theorem bestFirst_iff_orderly_sample : changes.Throughout BestFirst empty orderlyChanges :=
  (bestFirst_iff_orderly orderlyChanges (by decide)).mpr (by decide)

/-- Two routes with one prefix, and the second one again at a cost below that of the first. -/
def overtakingChanges : List Change :=
  [.add 0 (sampleRoute [true, false] 1 5) default, .add 1 (sampleRoute [true, false] 2 10) default,
    .add 2 (sampleRoute [true, false] 2 1) default]

/-- The new route is put in front of the first one, and the old one of its origin stays. -/
theorem not_bestFirst : changes.AllSteps (fun s e => e.Legal s) empty overtakingChanges ∧
    ¬ changes.Throughout BestFirst empty overtakingChanges := by
  refine ⟨by decide, fun h => ?_⟩
  obtain ⟨s, hs, hnot⟩ : ∃ s, (changes.run empty overtakingChanges).result = some s ∧
      ¬ FirstIsBest s.route (fun a => (s.flag a).best) (ofType s.route 2 (routesOf s [true, false])) :=
    exists_of_any (by decide)
  exact hnot (Machine.Throughout.of_run changes h hs [true, false] 2)

end Harry.Routes
