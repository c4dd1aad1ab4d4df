import Mathlib.Data.List.Basic

/-! Programs over a state in two parts, one that is compared and one that may differ between two
copies of the program. `Twin R m R'` is a relational triple for two runs of `m`: started in the same
compared state, with hidden states related by `R`, they return the same value and end in the same
compared state, with hidden states related by `R'` of that value. `Blind R m` is the case in which
the relation is kept. A part of the compared state may be declared constant; the judgement then says
that the program leaves it alone. The rules follow the program's text, so that a proof of the judgement
has the shape of the code. -/

namespace Harry.Base

variable {P H α β : Type}

/-- A program with a compared state `P` and a hidden state `H`. -/
def Prog (P H α : Type) : Type := P → H → α × P × H

namespace Prog

instance : Monad (Prog P H) where
  pure a := fun p h => (a, p, h)
  bind m k := fun p h => k (m p h).1 (m p h).2.1 (m p h).2.2

/-- The compared state. -/
def observe : Prog P H P := fun p h => (p, p, h)

def modify (f : P → P) : Prog P H Unit := fun p h => ((), f p, h)

/-- A step that works on the hidden state only. -/
def hidden (f : H → α × H) : Prog P H α := fun p h => ((f h).1, p, (f h).2)

theorem run_bind {m : Prog P H α} {k : α → Prog P H β} {p q : P} {h i : H} {a : α} (hm : m p h = (a, q, i)) :
    (m >>= k) p h = k a q i := by
  show k (m p h).1 (m p h).2.1 (m p h).2.2 = _
  rw [hm]

/-- A program run under a condition. -/
def when (c : Prop) [Decidable c] (m : Prog P H Unit) : Prog P H Unit := if c then m else pure ()

end Prog

/-- The program leaves a part of the compared state as it is. -/
def Leaves (f : P → β) (m : Prog P H α) : Prop := ∀ p h, f (m p h).2.1 = f p

namespace Leaves

variable {γ : Type} {f : P → γ}

theorem pure (a : α) : Leaves f (pure a : Prog P H α) := fun _ _ => rfl

theorem observe : Leaves f (Prog.observe : Prog P H P) := fun _ _ => rfl

theorem hidden (g : H → α × H) : Leaves f (Prog.hidden g : Prog P H α) := fun _ _ => rfl

theorem modify {g : P → P} (h : ∀ p, f (g p) = f p) : Leaves f (Prog.modify g : Prog P H Unit) := fun p _ => h p

theorem bind {m : Prog P H α} {k : α → Prog P H β} (hm : Leaves f m) (hk : ∀ a, Leaves f (k a)) :
    Leaves f (m >>= k) :=
  fun p h => (hk _ _ _).trans (hm p h)

theorem ite {c : Prop} [Decidable c] {m m' : Prog P H α} (h : Leaves f m) (h' : Leaves f m') :
    Leaves f (if c then m else m') := by
  by_cases hc : c
  · rwa [if_pos hc]
  · rwa [if_neg hc]

theorem forM {xs : List α} {g : α → Prog P H PUnit} (h : ∀ x ∈ xs, Leaves f (g x)) : Leaves f (xs.forM g) := by
  induction xs with
  | nil => exact Leaves.pure PUnit.unit
  | cons x xs ih =>
      exact .bind (h x List.mem_cons_self) fun _ => ih fun y hy => h y (List.mem_cons_of_mem x hy)

end Leaves

/-! ### Frames -/

/-- A relation of a state to those it may turn into. -/
class Frame (R : P × H → P × H → Prop) : Prop where
  refl : ∀ x, R x x
  trans : ∀ {x y z}, R x y → R y z → R x z

/-- Every run of the program leads to a state that is related to the one before it. -/
def Within (R : P × H → P × H → Prop) (m : Prog P H α) : Prop := ∀ p h, R (p, h) (m p h).2

namespace Within

variable {R : P × H → P × H → Prop}

theorem modify {f : P → P} (h : ∀ p m, R (p, m) (f p, m)) : Within R (Prog.modify f : Prog P H Unit) := h

theorem hidden {f : H → α × H} (h : ∀ p m, R (p, m) (p, (f m).2)) : Within R (Prog.hidden f : Prog P H α) := h

theorem ite {c : Prop} [Decidable c] {m m' : Prog P H α} (h : Within R m) (h' : Within R m') :
    Within R (if c then m else m') := by
  by_cases hc : c
  · rwa [if_pos hc]
  · rwa [if_neg hc]

variable [Frame R]

theorem pure (a : α) : Within R (pure a : Prog P H α) := fun _ _ => Frame.refl _

theorem observe : Within R (Prog.observe : Prog P H P) := fun _ _ => Frame.refl _

theorem bind {m : Prog P H α} {k : α → Prog P H β} (hm : Within R m) (hk : ∀ a, Within R (k a)) :
    Within R (m >>= k) :=
  fun p h => Frame.trans (hm p h) (hk _ _ _)

/-- The same, with what is known of the value in between. -/
theorem bind_of {Q : α → Prop} {m : Prog P H α} {k : α → Prog P H β} (hm : Within R m) (hQ : ∀ p h, Q (m p h).1)
    (hk : ∀ a, Q a → Within R (k a)) : Within R (m >>= k) :=
  fun p h => Frame.trans (hm p h) (hk _ (hQ p h) _ _)

theorem when {c : Prop} [Decidable c] {m : Prog P H Unit} (h : Within R m) : Within R (Prog.when c m) :=
  .ite h (.pure ())

theorem forM {γ : Type} {xs : List γ} {g : γ → Prog P H PUnit} (h : ∀ x ∈ xs, Within R (g x)) :
    Within R (xs.forM g) := by
  induction xs with
  | nil => exact Within.pure PUnit.unit
  | cons x xs ih =>
      exact .bind (h x List.mem_cons_self) fun _ => ih fun y hy => h y (List.mem_cons_of_mem x hy)

end Within

/-- The program leads from the states with one property to states with another. -/
def Leads (I J : P × H → Prop) (m : Prog P H α) : Prop := ∀ p h, I (p, h) → J (m p h).2

namespace Leads

variable {I J K : P × H → Prop}

theorem bind {m : Prog P H α} {k : α → Prog P H β} (hm : Leads I J m) (hk : ∀ a, Leads J K (k a)) : Leads I K (m >>= k) :=
  fun p h hi => hk _ _ _ (hm p h hi)

/-- The same, with what is known of the value in between. -/
theorem bind_of {Q : α → Prop} {m : Prog P H α} {k : α → Prog P H β} (hm : Leads I J m)
    (hQ : ∀ p h, I (p, h) → Q (m p h).1) (hk : ∀ a, Q a → Leads J K (k a)) : Leads I K (m >>= k) :=
  fun p h hi => hk _ (hQ p h hi) _ _ (hm p h hi)

theorem ite {c : Prop} [Decidable c] {m m' : Prog P H α} (h : Leads I J m) (h' : Leads I J m') :
    Leads I J (if c then m else m') := by
  by_cases hc : c
  · rwa [if_pos hc]
  · rwa [if_neg hc]

theorem when {c : Prop} [Decidable c] {m : Prog P H Unit} (h : Leads I I m) : Leads I I (Prog.when c m) :=
  .ite h fun _ _ hi => hi

theorem forM {γ : Type} {xs : List γ} {g : γ → Prog P H PUnit} (h : ∀ x ∈ xs, Leads I I (g x)) :
    Leads I I (xs.forM g) := by
  induction xs with
  | nil => exact fun _ _ hi => hi
  | cons x xs ih => exact .bind (h x List.mem_cons_self) fun _ => ih fun y hy => h y (List.mem_cons_of_mem x hy)

theorem mono {I' J' : P × H → Prop} {m : Prog P H α} (h : Leads I J m) (hI : ∀ x, I' x → I x) (hJ : ∀ x, J x → J' x) :
    Leads I' J' m := fun p k hi => hJ _ (h p k (hI _ hi))

end Leads

/-- What every turn of a loop keeps. -/
theorem forM_invariant {γ : Type} {I : P × H → Prop} {g : γ → Prog P H PUnit} {xs : List γ}
    (hstep : ∀ w ∈ xs, ∀ y, I y → I (g w y.1 y.2).2) {y : P × H} (hy : I y) : I (xs.forM g y.1 y.2).2 := by
  induction xs generalizing y with
  | nil => exact hy
  | cons w xs ih => exact ih (fun v hv => hstep v (List.mem_cons_of_mem w hv)) (hstep w List.mem_cons_self y hy)

/-- A loop that gets to an element after others that leave things as they are. -/
theorem forM_reaches {γ : Type} {I Q : P × H → Prop} {g : γ → Prog P H PUnit} {xs : List γ} {z : γ} (hz : z ∈ xs)
    (hother : ∀ w ∈ xs, w ≠ z → ∀ y, I y → I (g w y.1 y.2).2) (hself : ∀ y, I y → Q (g z y.1 y.2).2)
    (hstay : ∀ w ∈ xs, ∀ y, Q y → Q (g w y.1 y.2).2) {y : P × H} (hy : I y) : Q (xs.forM g y.1 y.2).2 := by
  induction xs generalizing y with
  | nil => exact absurd hz List.not_mem_nil
  | cons w xs ih =>
      have hstay' : ∀ v ∈ xs, ∀ y, Q y → Q (g v y.1 y.2).2 := fun v hv => hstay v (List.mem_cons_of_mem w hv)
      by_cases heq : w = z
      · subst heq
        exact forM_invariant hstay' (hself y hy)
      · have hxs : z ∈ xs := (List.mem_cons.mp hz).resolve_left fun h => heq h.symm
        exact ih hxs (fun v hv => hother v (List.mem_cons_of_mem w hv)) hstay' (hother w List.mem_cons_self heq y hy)

/-- The part of a compared state that programs do not change. -/
class Constant (P : Type) where
  Part : Type
  part : P → Part

variable [Constant P]

/-- Two runs of the program from a state, with related hidden states, cannot be told apart by their value
or by the compared state, and leave related hidden states. -/
structure TwinAt (p : P) (R : H → H → Prop) (m : Prog P H α) (R' : α → H → H → Prop) : Prop where
  val : ∀ h h', R h h' → (m p h').1 = (m p h).1
  state : ∀ h h', R h h' → (m p h').2.1 = (m p h).2.1
  rel : ∀ h h', R h h' → R' (m p h).1 (m p h).2.2 (m p h').2.2
  part : ∀ h h', R h h' → Constant.part (m p h).2.1 = Constant.part p

/-- The same from every state. -/
def Twin (R : H → H → Prop) (m : Prog P H α) (R' : α → H → H → Prop) : Prop := ∀ p, TwinAt p R m R'

/-- The relation of the hidden states is kept. -/
abbrev Blind (R : H → H → Prop) (m : Prog P H α) : Prop := Twin R m fun _ => R

section Rules

variable {p : P} {R R₁ : H → H → Prop} {R' R'₁ : α → H → H → Prop} {R'' : β → H → H → Prop}

/-- What holds after the first program, where the relation does before it, may be used for the second one. -/
theorem TwinAt.bind_of {m : Prog P H α} {k : α → Prog P H β} (I : α → P → Prop) (hm : TwinAt p R m R')
    (hI : ∀ h h', R h h' → I (m p h).1 (m p h).2.1)
    (hk : ∀ a q, I a q → Constant.part q = Constant.part p → TwinAt q (R' a) (k a) R'') :
    TwinAt p R (m >>= k) R'' := by
  have hrest : ∀ h h', R h h' → TwinAt (m p h).2.1 (R' (m p h).1) (k (m p h).1) R'' := fun h h' hR =>
    hk _ _ (hI h h' hR) (hm.part h h' hR)
  -- the second run of the first program has the value and the state of the first one
  have heq : ∀ h h', R h h' → (m >>= k) p h' = k (m p h).1 (m p h).2.1 (m p h').2.2 := by
    intro h h' hR
    show k (m p h').1 (m p h').2.1 (m p h').2.2 = _
    rw [hm.val h h' hR, hm.state h h' hR]
  refine ⟨fun h h' hR => ?_, fun h h' hR => ?_, fun h h' hR => ?_, fun h h' hR => ?_⟩
  · rw [heq h h' hR]
    exact (hrest h h' hR).val _ _ (hm.rel h h' hR)
  · rw [heq h h' hR]
    exact (hrest h h' hR).state _ _ (hm.rel h h' hR)
  · rw [heq h h' hR]
    exact (hrest h h' hR).rel _ _ (hm.rel h h' hR)
  · exact ((hrest h h' hR).part _ _ (hm.rel h h' hR)).trans (hm.part h h' hR)

/-- What holds after the first program may be used for the second one. -/
theorem TwinAt.bind {m : Prog P H α} {k : α → Prog P H β} (I : α → P → Prop) (hm : TwinAt p R m R')
    (hI : ∀ h, I (m p h).1 (m p h).2.1)
    (hk : ∀ a q, I a q → Constant.part q = Constant.part p → TwinAt q (R' a) (k a) R'') :
    TwinAt p R (m >>= k) R'' :=
  .bind_of I hm (fun h _ _ => hI h) hk

theorem TwinAt.mono {m : Prog P H α} (h : TwinAt p R m R') (hR : ∀ h h', R₁ h h' → R h h')
    (hR' : ∀ a h h', R' a h h' → R'₁ a h h') : TwinAt p R₁ m R'₁ where
  val x y hxy := h.val x y (hR x y hxy)
  state x y hxy := h.state x y (hR x y hxy)
  rel x y hxy := hR' _ _ _ (h.rel x y (hR x y hxy))
  part x y hxy := h.part x y (hR x y hxy)

theorem TwinAt.ite {c : Prop} [Decidable c] {m m' : Prog P H α} (h : c → TwinAt p R m R')
    (h' : ¬ c → TwinAt p R m' R') : TwinAt p R (if c then m else m') R' := by
  by_cases hc : c
  · rw [if_pos hc]
    exact h hc
  · rw [if_neg hc]
    exact h' hc

/-- A first program that works on the compared state only is run. -/
theorem TwinAt.run_bind {m : Prog P H α} {k : α → Prog P H β} {v : α} {q : P} (hm : ∀ h, m p h = (v, q, h))
    (hq : Constant.part q = Constant.part p) (hk : TwinAt q R (k v) R'') : TwinAt p R (m >>= k) R'' := by
  have hrun : ∀ h, (m >>= k) p h = k v q h := by
    intro h
    show k (m p h).1 (m p h).2.1 (m p h).2.2 = _
    rw [hm h]
  refine ⟨fun h h' hR => ?_, fun h h' hR => ?_, fun h h' hR => ?_, fun h h' hR => ?_⟩
  · rw [hrun, hrun]
    exact hk.val h h' hR
  · rw [hrun, hrun]
    exact hk.state h h' hR
  · rw [hrun, hrun]
    exact hk.rel h h' hR
  · rw [hrun]
    exact (hk.part h h' hR).trans hq

theorem TwinAt.assoc {γ : Type} {m : Prog P H γ} {k : γ → Prog P H α} {l : α → Prog P H β}
    (h : TwinAt p R (m >>= k >>= l) R'') : TwinAt p R (m >>= fun c => k c >>= l) R'' := h

theorem TwinAt.observe_bind {k : P → Prog P H β} (h : TwinAt p R (k p) R'') : TwinAt p R (Prog.observe >>= k) R'' :=
  .run_bind (fun _ => rfl) rfl h

theorem TwinAt.modify_bind {f : P → P} {k : Unit → Prog P H β} (hf : Constant.part (f p) = Constant.part p)
    (h : TwinAt (f p) R (k ()) R'') : TwinAt p R (Prog.modify f >>= k) R'' :=
  .run_bind (fun _ => rfl) hf h

/-- What the relation of the hidden states says may be assumed. -/
theorem TwinAt.of_rel {m : Prog P H α} (h : ∀ x y, R x y → TwinAt p (fun u v => u = x ∧ v = y) m R') :
    TwinAt p R m R' where
  val x y hR := (h x y hR).val x y ⟨rfl, rfl⟩
  state x y hR := (h x y hR).state x y ⟨rfl, rfl⟩
  rel x y hR := (h x y hR).rel x y ⟨rfl, rfl⟩
  part x y hR := (h x y hR).part x y ⟨rfl, rfl⟩

namespace Twin

theorem pure {a : α} (h : ∀ h h', R h h' → R' a h h') : Twin R (pure a : Prog P H α) R' :=
  fun _ => ⟨fun _ _ _ => rfl, fun _ _ _ => rfl, h, fun _ _ _ => rfl⟩

theorem bind {m : Prog P H α} {k : α → Prog P H β} (hm : Twin R m R')
    (hk : ∀ a, Twin (R' a) (k a) R'') : Twin R (m >>= k) R'' :=
  fun p => .bind (fun _ _ => True) (hm p) (fun _ => trivial) fun a q _ _ => hk a q

theorem hidden {f : H → α × H} (h : ∀ h h', R h h' → (f h').1 = (f h).1 ∧ R' (f h).1 (f h).2 (f h').2) :
    Twin R (Prog.hidden f : Prog P H α) R' :=
  fun _ => ⟨fun x y hR => (h x y hR).1, fun _ _ _ => rfl, fun x y hR => (h x y hR).2, fun _ _ _ => rfl⟩

theorem ite {c : Prop} [Decidable c] {m m' : Prog P H α} (h : c → Twin R m R') (h' : ¬ c → Twin R m' R') :
    Twin R (if c then m else m') R' :=
  fun p => .ite (fun hc => h hc p) fun hc => h' hc p

theorem mono {m : Prog P H α} (h : Twin R m R') (hR : ∀ h h', R₁ h h' → R h h')
    (hR' : ∀ a h h', R' a h h' → R'₁ a h h') : Twin R₁ m R'₁ :=
  fun p => (h p).mono hR hR'

/-- What is known beside the relation may be assumed. -/
theorem of_and {φ : Prop} {m : Prog P H α} (h : φ → Twin R m R') : Twin (fun x y => φ ∧ R x y) m R' :=
  fun p => .of_rel fun _ _ hxy => (h hxy.1 p).mono (fun _ _ heq => heq.1 ▸ heq.2 ▸ hxy.2) fun _ _ _ hR => hR

end Twin

end Rules

namespace Blind

variable {R : H → H → Prop}

theorem pure (a : α) : Blind R (pure a : Prog P H α) := Twin.pure fun _ _ hR => hR

theorem observe : Blind R (Prog.observe : Prog P H P) :=
  fun _ => ⟨fun _ _ _ => rfl, fun _ _ _ => rfl, fun _ _ hR => hR, fun _ _ _ => rfl⟩

theorem modify {f : P → P} (h : ∀ p, Constant.part (f p) = Constant.part p) :
    Blind R (Prog.modify f : Prog P H Unit) :=
  fun p => ⟨fun _ _ _ => rfl, fun _ _ _ => rfl, fun _ _ hR => hR, fun _ _ _ => h p⟩

theorem bind {m : Prog P H α} {k : α → Prog P H β} (hm : Blind R m) (hk : ∀ a, Blind R (k a)) :
    Blind R (m >>= k) :=
  Twin.bind hm hk

theorem ite {c : Prop} [Decidable c] {m m' : Prog P H α} (h : c → Blind R m) (h' : ¬ c → Blind R m') :
    Blind R (if c then m else m') :=
  Twin.ite h h'

theorem hidden {f : H → α × H} (h : ∀ h h', R h h' → (f h').1 = (f h).1 ∧ R (f h).2 (f h').2) :
    Blind R (Prog.hidden f : Prog P H α) :=
  Twin.hidden h

theorem when {c : Prop} [Decidable c] {m : Prog P H Unit} (h : c → Blind R m) : Blind R (Prog.when c m) :=
  Twin.ite h fun _ => Blind.pure ()

/-- A loop over a list that both runs go through. -/
theorem forM {γ : Type} {xs : List γ} {f : γ → Prog P H PUnit} (h : ∀ x ∈ xs, Blind R (f x)) :
    Blind R (xs.forM f) := by
  induction xs with
  | nil => exact Blind.pure PUnit.unit
  | cons x xs ih =>
      exact .bind (h x List.mem_cons_self) fun _ => ih fun y hy => h y (List.mem_cons_of_mem x hy)

end Blind

end Harry.Base
