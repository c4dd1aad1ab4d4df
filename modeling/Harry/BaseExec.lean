import Mathlib.Data.List.Induction

/-! Effectful calls of an imperative program as values, and the machines built from them. A call
has made a list of outputs, and it has a result or none: `none` stands for the places where the
language leaves the behaviour undefined (a null pointer, an index outside an array, a buffer that
is already freed). Outputs made before such a place are kept, so that a safety statement about the
outputs covers the call that runs into it. A machine steps by such calls; its runs and their
invariants are at the end. -/

namespace Harry.Base

/-- What a call has sent out and what it returned. -/
structure Exec (ω α : Type) where
  outs : List ω
  result : Option α

namespace Exec

variable {ω α β : Type}

protected def bind (x : Exec ω α) (f : α → Exec ω β) : Exec ω β :=
  match x.result with
  | none => ⟨x.outs, none⟩
  | some a => ⟨x.outs ++ (f a).outs, (f a).result⟩

instance : Monad (Exec ω) where
  pure a := ⟨[], some a⟩
  bind := Exec.bind

/-- One output. -/
def emit (o : ω) : Exec ω Unit := ⟨[o], some ()⟩

/-- A list of outputs, in order. -/
def emits (os : List ω) : Exec ω Unit := ⟨os, some ()⟩

/-- The behaviour is undefined from here on. -/
def undefined : Exec ω α := ⟨[], none⟩

/-- Use of a value that has to exist. -/
def deref (o : Option α) : Exec ω α := ⟨[], o⟩

/-- What the code takes for granted; it goes on only where that is true. -/
def require (p : Prop) [Decidable p] : Exec ω Unit := ⟨[], if p then some () else none⟩

/-- A call made under a condition. -/
def when (p : Prop) [Decidable p] (x : Exec ω Unit) : Exec ω Unit := if p then x else pure ()

@[simp] theorem outs_pure (a : α) : (pure a : Exec ω α).outs = [] := rfl
@[simp] theorem result_pure (a : α) : (pure a : Exec ω α).result = some a := rfl
@[simp] theorem outs_emit (o : ω) : (emit o).outs = [o] := rfl
@[simp] theorem result_emit (o : ω) : (emit o).result = some () := rfl
@[simp] theorem outs_emits (os : List ω) : (emits os).outs = os := rfl
@[simp] theorem result_emits (os : List ω) : (emits os).result = some () := rfl
@[simp] theorem outs_undefined : (undefined : Exec ω α).outs = [] := rfl
@[simp] theorem result_undefined : (undefined : Exec ω α).result = none := rfl
@[simp] theorem outs_deref (o : Option α) : (deref o : Exec ω α).outs = [] := rfl
@[simp] theorem result_deref (o : Option α) : (deref o : Exec ω α).result = o := rfl

section Condition

variable (p : Prop) [Decidable p]

@[simp] theorem outs_require : (require p : Exec ω Unit).outs = [] := rfl

@[simp] theorem result_require :
    (require p : Exec ω Unit).result = if p then some () else none := rfl

theorem result_require_eq_some {p : Prop} [Decidable p] {u : Unit} :
    (require p : Exec ω Unit).result = some u ↔ p := by
  simp [require]

theorem mem_outs_when {p : Prop} [Decidable p] {x : Exec ω Unit} {o : ω} :
    o ∈ (when p x).outs ↔ p ∧ o ∈ x.outs := by
  unfold when
  by_cases h : p <;> simp [h]

theorem result_when {p : Prop} [Decidable p] {x : Exec ω Unit} :
    (when p x).result = some () ↔ (p → x.result = some ()) := by
  unfold when
  by_cases h : p <;> simp [h]

end Condition

theorem bind_of_none {x : Exec ω α} (f : α → Exec ω β) (h : x.result = none) :
    x >>= f = ⟨x.outs, none⟩ := by
  show Exec.bind x f = _
  simp only [Exec.bind, h]

theorem bind_of_some {x : Exec ω α} (f : α → Exec ω β) {a : α} (h : x.result = some a) :
    x >>= f = ⟨x.outs ++ (f a).outs, (f a).result⟩ := by
  show Exec.bind x f = _
  simp only [Exec.bind, h]

protected theorem pure_bind (a : α) (f : α → Exec ω β) : (pure a : Exec ω α) >>= f = f a := by
  rw [bind_of_some f rfl]
  rfl

theorem deref_some_bind (a : α) (f : α → Exec ω β) : deref (some a) >>= f = f a :=
  Exec.pure_bind a f

protected theorem id_map (x : Exec ω α) : id <$> x = x := by
  show Exec.bind x _ = x
  cases x with
  | mk os r => cases r <;> simp [Exec.bind]

protected theorem bind_assoc {γ : Type} (x : Exec ω α) (f : α → Exec ω β) (g : β → Exec ω γ) :
    x >>= f >>= g = x >>= fun a => f a >>= g := by
  cases h : x.result with
  | none => rw [bind_of_none f h, bind_of_none g rfl, bind_of_none _ h]
  | some a =>
      rw [bind_of_some f h, bind_of_some _ h]
      cases h' : (f a).result with
      | none => rw [bind_of_none g rfl, bind_of_none g h']
      | some b => rw [bind_of_some g rfl, bind_of_some g h', List.append_assoc]

instance : LawfulMonad (Exec ω) := LawfulMonad.mk' _ Exec.id_map Exec.pure_bind Exec.bind_assoc

@[simp] theorem result_bind (x : Exec ω α) (f : α → Exec ω β) :
    (x >>= f).result = x.result.bind fun a => (f a).result := by
  cases h : x.result with
  | none => rw [bind_of_none f h]; rfl
  | some a => rw [bind_of_some f h]; rfl

/-- A computation that returns has returned in each of its parts. -/
theorem result_bind_eq_some {x : Exec ω α} {f : α → Exec ω β} {b : β} :
    (x >>= f).result = some b ↔ ∃ a, x.result = some a ∧ (f a).result = some b := by
  rw [result_bind, Option.bind_eq_some_iff]

theorem mem_outs_bind {x : Exec ω α} {f : α → Exec ω β} {o : ω} :
    o ∈ (x >>= f).outs ↔ o ∈ x.outs ∨ ∃ a, x.result = some a ∧ o ∈ (f a).outs := by
  cases h : x.result with
  | none => rw [bind_of_none f h]; simp
  | some a => rw [bind_of_some f h]; simp

theorem outs_emit_bind (o : ω) (f : Unit → Exec ω β) : (emit o >>= f).outs = o :: (f ()).outs := by
  rw [bind_of_some f rfl]
  rfl

theorem outs_emits_bind (os : List ω) (f : Unit → Exec ω β) :
    (emits os >>= f).outs = os ++ (f ()).outs := by
  rw [bind_of_some f rfl]
  rfl

/-- A loop whose calls all return makes the outputs of them all. -/
theorem forM_emits {f : α → Exec ω Unit} {g : α → List ω} {l : List α} (h : ∀ x ∈ l, f x = emits (g x)) :
    (l.forM f : Exec ω PUnit) = emits (l.flatMap g) := by
  induction l with
  | nil => rfl
  | cons x l ih =>
      have hcons : (x :: l).forM f = f x >>= fun _ => l.forM f := rfl
      rw [hcons, h x (by simp), bind_of_some _ rfl, ih fun y hy => h y (by simp [hy])]
      rfl

/-- A loop returns if all its calls do. -/
theorem result_forM {f : α → Exec ω Unit} {l : List α} :
    (l.forM f : Exec ω PUnit).result = some () ↔ ∀ x ∈ l, (f x).result = some () := by
  induction l with
  | nil => simp
  | cons x l ih =>
      have hcons : (x :: l).forM f = f x >>= fun _ => l.forM f := rfl
      rw [hcons, result_bind_eq_some, List.forall_mem_cons, ← ih]
      exact ⟨fun ⟨_, hx, hl⟩ => ⟨hx, hl⟩, fun ⟨hx, hl⟩ => ⟨_, hx, hl⟩⟩

section EndsAs

variable {ε : Type}

/-- A computation with outputs ends as one without them does, if it ends. -/
def EndsAs (x : Exec ω α) (y : Except ε α) : Prop :=
  ∀ a, x.result = some a → y = .ok a

variable {x : Exec ω α} {y : Except ε α}

protected theorem EndsAs.pure (a : α) : EndsAs (pure a : Exec ω α) (pure a : Except ε α) := fun _ h =>
  congrArg Except.ok (Option.some.inj h)

protected theorem EndsAs.bind {k : α → Exec ω β} {l : α → Except ε β} (h : x.EndsAs y) (hk : ∀ a, (k a).EndsAs (l a)) :
    (x >>= k).EndsAs (y >>= l) := by
  intro b hb
  obtain ⟨a, ha, hb⟩ := result_bind_eq_some.mp hb
  rw [h a ha]
  exact hk a b hb

protected theorem EndsAs.ite {c c' : Prop} [Decidable c] [Decidable c'] {x' : Exec ω α} {y' : Except ε α} (hc : c ↔ c')
    (h : x.EndsAs y) (h' : x'.EndsAs y') : (if c then x else x').EndsAs (if c' then y else y') := by
  by_cases hcond : c
  · rwa [if_pos hcond, if_pos (hc.mp hcond)]
  · rwa [if_neg hcond, if_neg (mt hc.mpr hcond)]

theorem endsAs_deref (y : Except ε α) : (deref y.toOption : Exec ω α).EndsAs y := by
  intro a ha
  cases y with
  | error e => cases ha
  | ok b => exact congrArg Except.ok (Option.some.inj ha)

theorem endsAs_foldlM {γ : Type} {f : β → γ → Exec ω β} {g : β → γ → Except ε β} (h : ∀ b z, (f b z).EndsAs (g b z))
    (l : List γ) (b : β) : (l.foldlM f b).EndsAs (l.foldlM g b) := by
  induction l generalizing b with
  | nil => exact .pure b
  | cons z l ih =>
      rw [List.foldlM_cons, List.foldlM_cons]
      exact .bind (h b z) ih

end EndsAs

end Exec

/-- A result with a property that its evaluation decides. -/
theorem exists_of_any {α : Type} {p : α → Prop} [DecidablePred p] {o : Option α}
    (h : o.any (fun a => decide (p a)) = true) : ∃ a, o = some a ∧ p a := by
  obtain ⟨a, ho, ha⟩ := (Option.any_eq_true _ _).mp h
  exact ⟨a, ho, of_decide_eq_true ha⟩

/-! ### Machines -/

/-- A machine: what one event does to a state. -/
structure Machine (σ ε ω : Type) where
  step : σ → ε → Exec ω σ

namespace Machine

variable {σ ε ω : Type} (M : Machine σ ε ω)

/-- The events one after another; a run stops at the first undefined step. -/
def run : σ → List ε → Exec ω σ
  | s, [] => pure s
  | s, e :: es => M.step s e >>= fun s' => run s' es

@[simp] theorem run_nil (s : σ) : M.run s [] = pure s := rfl

theorem run_cons (s : σ) (e : ε) (es : List ε) :
    M.run s (e :: es) = M.step s e >>= fun s' => M.run s' es := rfl

theorem run_append (s : σ) (es fs : List ε) :
    M.run s (es ++ fs) = M.run s es >>= fun s' => M.run s' fs := by
  induction es generalizing s with
  | nil => simp
  | cons e es ih =>
      simp only [List.cons_append, run_cons, bind_assoc]
      congr 1
      funext s'
      exact ih s'

theorem run_snoc (s : σ) (es : List ε) (e : ε) :
    M.run s (es ++ [e]) = M.run s es >>= fun s' => M.step s' e := by
  simp [run_append, run_cons]

/-- A state that some run reaches. -/
def Reachable (s t : σ) : Prop := ∃ es, (M.run s es).result = some t

/-- The invariant rule: what every step from a state with the property keeps holds in every state
a run reaches. -/
theorem run_invariant {P : σ → Prop} {s t : σ} {es : List ε} (h0 : P s)
    (hstep : ∀ s e s', P s → (M.step s e).result = some s' → P s')
    (hrun : (M.run s es).result = some t) : P t := by
  induction es generalizing s with
  | nil =>
      cases hrun
      exact h0
  | cons e es ih =>
      rw [run_cons, Exec.result_bind_eq_some] at hrun
      obtain ⟨s', hs, hr⟩ := hrun
      exact ih (hstep s e s' h0 hs) hr

/-- Every step of the run satisfies a condition on the state before it and the event. -/
def AllSteps (C : σ → ε → Prop) : σ → List ε → Prop
  | _, [] => True
  | s, e :: es => C s e ∧ ∀ s' ∈ (M.step s e).result, AllSteps C s' es

instance decidableAllSteps (C : σ → ε → Prop) [∀ s e, Decidable (C s e)] :
    (s : σ) → (es : List ε) → Decidable (M.AllSteps C s es)
  | _, [] => isTrue trivial
  | s, e :: es =>
    have := fun s' => decidableAllSteps C s' es
    inferInstanceAs (Decidable (C s e ∧ ∀ s' ∈ (M.step s e).result, M.AllSteps C s' es))

/-- Every state of the run has a property, the first and the last one included. -/
def Throughout (P : σ → Prop) : σ → List ε → Prop
  | s, [] => P s
  | s, e :: es => P s ∧ ∀ s' ∈ (M.step s e).result, Throughout P s' es

instance decidableThroughout (P : σ → Prop) [DecidablePred P] :
    (s : σ) → (es : List ε) → Decidable (M.Throughout P s es)
  | s, [] => inferInstanceAs (Decidable (P s))
  | s, e :: es =>
    have := fun s' => decidableThroughout P s' es
    inferInstanceAs (Decidable (P s ∧ ∀ s' ∈ (M.step s e).result, M.Throughout P s' es))

theorem Throughout.start {P : σ → Prop} {s : σ} {es : List ε} (h : M.Throughout P s es) : P s := by
  cases es with
  | nil => exact h
  | cons e es => exact h.1

/-- Where a condition on the steps decides whether they keep the property, it decides whether the run does. -/
theorem throughout_iff_allSteps {C : σ → ε → Prop} {P Q J : σ → Prop} (hP : ∀ s, J s → P s)
    (hstep : ∀ s e s', J s → Q s' → C s e → (M.step s e).result = some s' → J s')
    (hneeds : ∀ s e, J s → ¬ C s e → ∃ s', (M.step s e).result = some s' ∧ ¬ P s') {s : σ} {es : List ε} (h0 : J s)
    (hQ : M.Throughout Q s es) : M.Throughout P s es ↔ M.AllSteps C s es := by
  induction es generalizing s with
  | nil => exact ⟨fun _ => trivial, fun _ => hP s h0⟩
  | cons e es ih =>
      have hnext : ∀ s' ∈ (M.step s e).result, C s e → J s' :=
        fun s' hs' hC => hstep s e s' h0 (Throughout.start M (hQ.2 s' hs')) hC hs'
      constructor
      · intro h
        have hC : C s e := by
          by_contra hno
          obtain ⟨s', hs', hnot⟩ := hneeds s e h0 hno
          exact hnot (Throughout.start M (h.2 s' hs'))
        exact ⟨hC, fun s' hs' => (ih (hnext s' hs' hC) (hQ.2 s' hs')).mp (h.2 s' hs')⟩
      · intro h
        exact ⟨hP s h0, fun s' hs' => (ih (hnext s' hs' h.1) (hQ.2 s' hs')).mpr (h.2 s' hs')⟩

/-- A run with the property throughout has it in the end. -/
theorem Throughout.of_run {P : σ → Prop} {s t : σ} {es : List ε} (h : M.Throughout P s es)
    (hrun : (M.run s es).result = some t) : P t := by
  induction es generalizing s with
  | nil =>
      cases hrun
      exact h
  | cons e es ih =>
      rw [run_cons, Exec.result_bind_eq_some] at hrun
      obtain ⟨s', hs, hr⟩ := hrun
      exact ih (h.2 s' hs) hr

/-- Where a condition on the legal steps decides whether they keep the property, it decides whether a legal run does. -/
theorem throughout_iff_of_legal {C L : σ → ε → Prop} {P J : σ → Prop} (hP : ∀ s, J s → P s)
    (hstep : ∀ s e s', J s → L s e → C s e → (M.step s e).result = some s' → J s')
    (hneeds : ∀ s e, J s → L s e → ¬ C s e → ∃ s', (M.step s e).result = some s' ∧ ¬ P s') {s : σ} {es : List ε}
    (h0 : J s) (hlegal : M.AllSteps L s es) : M.Throughout P s es ↔ M.AllSteps C s es := by
  induction es generalizing s with
  | nil => exact ⟨fun _ => trivial, fun _ => hP s h0⟩
  | cons e es ih =>
      constructor
      · intro h
        have hC : C s e := by
          by_contra hno
          obtain ⟨s', hs', hnot⟩ := hneeds s e h0 hlegal.1 hno
          exact hnot (Throughout.start M (h.2 s' hs'))
        exact ⟨hC, fun s' hs' => (ih (hstep s e s' h0 hlegal.1 hC hs') (hlegal.2 s' hs')).mp (h.2 s' hs')⟩
      · intro h
        exact ⟨hP s h0, fun s' hs' => (ih (hstep s e s' h0 hlegal.1 h.1 hs') (hlegal.2 s' hs')).mpr (h.2 s' hs')⟩

/-- Every step of the run has a result, and every state has a property. -/
def Always (P : σ → Prop) : σ → List ε → Prop
  | s, [] => P s
  | s, e :: es => P s ∧ ∃ s' ∈ (M.step s e).result, Always P s' es

theorem Always.start {P : σ → Prop} {s : σ} {es : List ε} (h : M.Always P s es) : P s := by
  cases es with
  | nil => exact h
  | cons e es => exact h.1

theorem Always.run {P : σ → Prop} {s : σ} {es : List ε} (h : M.Always P s es) :
    ∃ t, (M.run s es).result = some t ∧ P t := by
  induction es generalizing s with
  | nil => exact ⟨s, rfl, h⟩
  | cons e es ih =>
      obtain ⟨-, s', hs', hrest⟩ := h
      obtain ⟨t, ht, hP⟩ := ih hrest
      exact ⟨t, by rw [run_cons, Exec.result_bind_eq_some]; exact ⟨s', hs', ht⟩, hP⟩

/-- Where a condition on the legal steps decides whether they have a result and keep the property, it decides whether a
legal run always does. -/
theorem always_iff_of_legal {C L : σ → ε → Prop} {P J : σ → Prop} (hP : ∀ s, J s → P s)
    (hstep : ∀ s e, J s → L s e → C s e → ∃ s', (M.step s e).result = some s' ∧ J s')
    (hneeds : ∀ s e s', J s → L s e → ¬ C s e → (M.step s e).result = some s' → ¬ P s') {s : σ} {es : List ε}
    (h0 : J s) (hlegal : M.AllSteps L s es) : M.Always P s es ↔ M.AllSteps C s es := by
  induction es generalizing s with
  | nil => exact ⟨fun _ => trivial, fun _ => hP s h0⟩
  | cons e es ih =>
      constructor
      · rintro ⟨-, s', hs', hrest⟩
        have hC : C s e := by
          by_contra hno
          exact hneeds s e s' h0 hlegal.1 hno hs' (Always.start M hrest)
        obtain ⟨t, ht, hJ⟩ := hstep s e h0 hlegal.1 hC
        obtain rfl := Option.some.inj (ht.symm.trans hs')
        refine ⟨hC, fun s' hs' => ?_⟩
        obtain rfl := Option.some.inj (ht.symm.trans hs')
        exact (ih hJ (hlegal.2 t ht)).mp hrest
      · rintro ⟨hC, hrest⟩
        obtain ⟨t, ht, hJ⟩ := hstep s e h0 hlegal.1 hC
        exact ⟨hP s h0, t, ht, (ih hJ (hlegal.2 t ht)).mpr (hrest t ht)⟩

/-- Two conditions that agree in the states of an invariant agree on runs. -/
theorem allSteps_iff_of_invariant {C D : σ → ε → Prop} {J : σ → Prop} (hagree : ∀ s e, J s → (C s e ↔ D s e))
    (hstep : ∀ s e s', J s → (M.step s e).result = some s' → J s') {s : σ} {es : List ε} (h0 : J s) :
    M.AllSteps C s es ↔ M.AllSteps D s es := by
  induction es generalizing s with
  | nil => exact Iff.rfl
  | cons e es ih => exact and_congr (hagree s e h0) (forall₂_congr fun s' hs' => ih (hstep s e s' h0 hs'))

theorem AllSteps.of_append {C : σ → ε → Prop} {s t : σ} {pre post : List ε} {e : ε}
    (h : M.AllSteps C s (pre ++ e :: post)) (hrun : (M.run s pre).result = some t) :
    M.AllSteps C s pre ∧ C t e := by
  induction pre generalizing s with
  | nil =>
      cases hrun
      exact ⟨trivial, h.1⟩
  | cons e' pre ih =>
      rw [run_cons, Exec.result_bind_eq_some] at hrun
      obtain ⟨s', hs, hr⟩ := hrun
      obtain ⟨-, hC⟩ := ih (h.2 s' hs) hr
      refine ⟨⟨h.1, fun s'' hs'' => ?_⟩, hC⟩
      rw [Option.mem_def, hs] at hs''
      cases hs''
      exact (ih (h.2 s' hs) hr).1

theorem AllSteps.left {C : σ → ε → Prop} {s : σ} {pre post : List ε} (h : M.AllSteps C s (pre ++ post)) :
    M.AllSteps C s pre := by
  induction pre generalizing s with
  | nil => trivial
  | cons e pre ih => exact ⟨h.1, fun s' hs' => ih (h.2 s' hs')⟩

theorem allSteps_of_forall {C : σ → ε → Prop} {s : σ} {es : List ε}
    (h : ∀ pre e post t, es = pre ++ e :: post → (M.run s pre).result = some t → C t e) : M.AllSteps C s es := by
  induction es generalizing s with
  | nil => trivial
  | cons e es ih =>
      refine ⟨h [] e es s rfl rfl, fun s' hs' => ih fun pre e' post t hes hrun => ?_⟩
      refine h (e :: pre) e' post t (congrArg (e :: ·) hes) ?_
      rw [run_cons, Exec.result_bind_eq_some]
      exact ⟨s', hs', hrun⟩

/-- The invariant rule for such runs. -/
theorem run_invariant_of_allSteps {C : σ → ε → Prop} {P : σ → Prop} {s t : σ} {es : List ε}
    (h0 : P s) (hall : M.AllSteps C s es)
    (hstep : ∀ s e s', P s → C s e → (M.step s e).result = some s' → P s')
    (hrun : (M.run s es).result = some t) : P t := by
  induction es generalizing s with
  | nil =>
      cases hrun
      exact h0
  | cons e es ih =>
      rw [run_cons, Exec.result_bind_eq_some] at hrun
      obtain ⟨s', hs, hr⟩ := hrun
      exact ih (hstep s e s' h0 hall.1 hs) (hall.2 s' hs) hr

/-- The invariant rule for such runs with the outputs so far, which count even where the last step is
undefined. -/
theorem run_outputs_of_allSteps {C : σ → ε → Prop} {P : List ω → σ → Prop} {Q : List ω → Prop} {os : List ω}
    {s : σ} {es : List ε} (h0 : P os s) (hQ : Q os) (hall : M.AllSteps C s es)
    (hstep : ∀ os s e, P os s → C s e → Q (os ++ (M.step s e).outs) ∧
      ∀ t, (M.step s e).result = some t → P (os ++ (M.step s e).outs) t) :
    Q (os ++ (M.run s es).outs) ∧ ∀ t, (M.run s es).result = some t → P (os ++ (M.run s es).outs) t := by
  induction es generalizing os s with
  | nil =>
      simp only [run_nil, Exec.outs_pure, List.append_nil, Exec.result_pure]
      refine ⟨hQ, fun t ht => ?_⟩
      cases ht
      exact h0
  | cons e es ih =>
      obtain ⟨hQ', hP'⟩ := hstep os s e h0 hall.1
      rw [run_cons]
      cases hs : (M.step s e).result with
      | none =>
          rw [Exec.bind_of_none _ hs]
          exact ⟨hQ', fun t ht => by cases ht⟩
      | some s' =>
          rw [Exec.bind_of_some _ hs, ← List.append_assoc]
          exact ih (hP' s' hs) hQ' (hall.2 s' hs)

section Together

variable {τ : Type} (l r : τ → ε)

/-- Two runs side by side, over turns that give an event to each: every pair of steps satisfies a condition
on the two states before it and the turn. -/
def Together (C : σ → σ → τ → Prop) : σ → σ → List τ → Prop
  | _, _, [] => True
  | s, t, e :: es => C s t e ∧ ∀ s' ∈ (M.step s (l e)).result, ∀ t' ∈ (M.step t (r e)).result, Together C s' t' es

/-- The invariant rule for two such runs: as long as the steps keep the two states related and make the
same outputs, the runs make the same outputs and end in related states. -/
theorem run_together {C : σ → σ → τ → Prop} {P : σ → σ → Prop} {s t : σ} {es : List τ} (h0 : P s t)
    (hall : M.Together l r C s t es)
    (hstep : ∀ s t e, P s t → C s t e → (M.step t (r e)).outs = (M.step s (l e)).outs ∧
      Option.Rel P (M.step s (l e)).result (M.step t (r e)).result) :
    (M.run t (es.map r)).outs = (M.run s (es.map l)).outs ∧
      Option.Rel P (M.run s (es.map l)).result (M.run t (es.map r)).result := by
  induction es generalizing s t with
  | nil => exact ⟨rfl, .some h0⟩
  | cons e es ih =>
      obtain ⟨houts, hrel⟩ := hstep s t e h0 hall.1
      simp only [List.map_cons, run_cons]
      generalize hs : (M.step s (l e)).result = rs at hrel
      generalize ht : (M.step t (r e)).result = rt at hrel
      cases hrel with
      | none =>
          rw [Exec.bind_of_none _ hs, Exec.bind_of_none _ ht]
          exact ⟨houts, .none⟩
      | some hP =>
          rename_i s' t'
          obtain ⟨hrest, hend⟩ := ih hP (hall.2 s' hs t' ht)
          rw [Exec.bind_of_some _ hs, Exec.bind_of_some _ ht, houts, hrest]
          exact ⟨rfl, hend⟩

end Together

theorem throughout_true (s : σ) (es : List ε) : M.Throughout (fun _ => True) s es := by
  induction es generalizing s with
  | nil => trivial
  | cons e es ih => exact ⟨trivial, fun s' _ => ih s'⟩

/-- The machine with the outputs so far in its state. -/
def traced : Machine (σ × List ω) ε ω where
  step s e := ⟨(M.step s.1 e).outs, (M.step s.1 e).result.map fun s' => (s', s.2 ++ (M.step s.1 e).outs)⟩

/-- A step of it is a step of the machine. -/
theorem result_traced_eq_some {s t : σ × List ω} {e : ε} : (M.traced.step s e).result = some t ↔
    (M.step s.1 e).result = some t.1 ∧ t.2 = s.2 ++ (M.step s.1 e).outs := by
  simp only [traced, Option.map_eq_some_iff]
  constructor
  · rintro ⟨s', hs', rfl⟩
    exact ⟨hs', rfl⟩
  · rintro ⟨hs', ht⟩
    exact ⟨t.1, hs', by rw [← ht]⟩

/-- The machine with a history variable, which every step writes and no step reads. -/
def recording {γ : Type} (note : σ → ε → List ω → γ → γ) : Machine (σ × γ) ε ω where
  step s e :=
    ⟨(M.step s.1 e).outs, (M.step s.1 e).result.map fun s' => (s', note s.1 e (M.step s.1 e).outs s.2)⟩

/-- Every run of the machine is one of it. -/
theorem exists_run_recording {γ : Type} {note : σ → ε → List ω → γ → γ} {s t : σ} {g : γ} {es : List ε}
    (h : (M.run s es).result = some t) : ∃ g', ((M.recording note).run (s, g) es).result = some (t, g') := by
  induction es generalizing s g with
  | nil =>
      cases h
      exact ⟨g, rfl⟩
  | cons e es ih =>
      rw [run_cons, Exec.result_bind_eq_some] at h
      obtain ⟨s', hs, hr⟩ := h
      obtain ⟨g', hg⟩ := ih (g := note s e (M.step s e).outs g) hr
      refine ⟨g', ?_⟩
      rw [run_cons, Exec.result_bind_eq_some]
      exact ⟨(s', note s e (M.step s e).outs g), by simp [recording, hs], hg⟩

/-- The invariant rule with history: the events and the outputs so far take part, and the outputs
of the last step count even where that step is undefined. -/
theorem run_history {P : List ε → List ω → σ → Prop} {Q : List ε → List ω → Prop} {s : σ}
    (h0 : P [] [] s) (hQ : Q [] [])
    (hstep : ∀ es os s' e, P es os s' → Q es os →
      Q (es ++ [e]) (os ++ (M.step s' e).outs) ∧
      ∀ t, (M.step s' e).result = some t → P (es ++ [e]) (os ++ (M.step s' e).outs) t)
    (hstop : ∀ es os e, Q es os → Q (es ++ [e]) os) (es : List ε) :
    Q es (M.run s es).outs ∧ ∀ t, (M.run s es).result = some t → P es (M.run s es).outs t := by
  induction es using List.reverseRecOn with
  | nil =>
      refine ⟨hQ, fun t ht => ?_⟩
      cases ht
      exact h0
  | append_singleton es e ih =>
      rw [run_snoc]
      cases h : (M.run s es).result with
      | none =>
          rw [Exec.bind_of_none _ h]
          exact ⟨hstop _ _ e ih.1, fun t ht => by cases ht⟩
      | some s' =>
          rw [Exec.bind_of_some _ h]
          exact hstep es _ s' e (ih.2 s' h) ih.1

/-- The invariant rule with the events so far. -/
theorem run_invariant_history {P : List ε → σ → Prop} {s t : σ} {es : List ε} (h0 : P [] s)
    (hstep : ∀ es s' e t, P es s' → (M.step s' e).result = some t → P (es ++ [e]) t)
    (hrun : (M.run s es).result = some t) : P es t :=
  (M.run_history (P := fun es _ s => P es s) (Q := fun _ _ => True) h0 trivial
    (fun es _ s' e hP _ => ⟨trivial, fun t ht => hstep es s' e t hP ht⟩) (fun _ _ _ _ => trivial) es).2 t hrun

/-- Every output of a run was made by some step of it. -/
theorem mem_outs_run {s : σ} {es : List ε} {o : ω} (h : o ∈ (M.run s es).outs) :
    ∃ pre e post s', es = pre ++ e :: post ∧ (M.run s pre).result = some s' ∧ o ∈ (M.step s' e).outs := by
  induction es generalizing s with
  | nil => cases h
  | cons e es ih =>
      rw [run_cons, Exec.mem_outs_bind] at h
      rcases h with h | ⟨s', hs', h⟩
      · exact ⟨[], e, es, s, rfl, rfl, h⟩
      · obtain ⟨pre, e', post, t, rfl, hpre, ho⟩ := ih h
        refine ⟨e :: pre, e', post, t, rfl, ?_, ho⟩
        rw [run_cons, Exec.result_bind_eq_some]
        exact ⟨s', hs', hpre⟩

end Machine

end Harry.Base
