import Harry.BaseExec
import Harry.ThreadLists

/-! The timers of `lib/thread.c`. The list is kept in the order in which they run out. `thread_timer_process` is to move
those that have run out to the ready list, but the loop goes on from a thread that it has just put at the end of that
list: it moves one timer and then stops. -/

namespace Harry.Thread

open Harry.Base

variable {ω : Type}

/-- The threads that are met from a thread on. -/
def walk (next : Addr → Option Addr) : Nat → Option Addr → List Addr
  | 0, _ => []
  | _ + 1, none => []
  | fuel + 1, some a => a :: walk next fuel (next a)

/-- The threads in a list, from its head on. -/
def threads (s : Master ω) (n : ListName) : List Addr :=
  walk s.next (s.lists n).count.toNat (s.lists n).head

/-- The timers of the list that have run out. -/
def due (s : Master ω) (now : Timeval) : List Addr :=
  (threads s .timer).filter fun a => (s.u a).alarm.le now

/-- A call of `thread_timer_process`, with what it returned. -/
structure Processed (ω : Type) where
  before : Master ω
  now : Timeval
  after : Master ω
  ready : Nat

/-- The timers that have run out, and no others, have gone to the end of the ready list, in their order, and their
number was returned. -/
structure Processed.Right (r : Processed ω) : Prop where
  timer : threads r.after .timer = (threads r.before .timer).filter fun a => ¬ (r.before.u a).alarm.le r.now
  ready : threads r.after .ready = threads r.before .ready ++ due r.before r.now
  type : ∀ a ∈ due r.before r.now, r.after.type a = .ready
  number : r.ready = (due r.before r.now).length

/-- A call that has to do with timers. -/
inductive TimerEvent (ω : Type)
  | addTimer (work : ω) (timer : Int) (clock : Timeval)
  | cancel (thread : Addr)
  | process (now : Timeval)

/-- The timers with their callers; each call of `thread_timer_process` is put down. -/
def timers : Machine (Master ω) (TimerEvent ω) (Processed ω) where
  step s
    | .addTimer work timer clock => do
      let (s, _) ← Exec.deref (threadAddTimer s work timer clock)
      pure s
    | .cancel thread => Exec.deref (threadCancel s thread)
    | .process now => do
      let (after, ready) ← Exec.deref (threadTimerProcess s .timer now)
      Exec.emit ⟨s, now, after, ready⟩
      pure after

/-- Times that the clock shows, and threads that can be cancelled. -/
def TimerEvent.Legal (s : Master ω) : TimerEvent ω → Prop
  | .addTimer _ timer clock => IsLong timer ∧ clock.Valid
  | .cancel thread => Scheduled s thread
  | .process now => now.Valid

/-- A timer runs out at a time that is a `long`, and where the timers are processed no more than one has run out. -/
def TimerEvent.Few (s : Master ω) : TimerEvent ω → Prop
  | .addTimer _ timer clock => IsLong (clock.sec + timer)
  | .cancel _ => True
  | .process now => (due s now).length ≤ 1

/-- The timers are in order, and every call of `thread_timer_process` has done what it should. -/
structure Timely (s : Master ω × List (Processed ω)) : Prop where
  sorted : (threads s.1 .timer).Pairwise fun a b => (s.1.u a).alarm.le (s.1.u b).alarm
  right : ∀ r ∈ s.2, r.Right

section Timers

variable {s s' : Master ω} {ls : ListName → List Addr} {now : Timeval}

theorem walk_eq {next prev : Addr → Option Addr} {before : Option Addr} {l : List Addr}
    (h : Seg next prev before l none) : walk next l.length l.head? = l := by
  induction l generalizing before with
  | nil => rfl
  | cons a l ih =>
      obtain ⟨-, hnext, hl⟩ := h
      rw [List.length_cons, List.head?_cons, walk, hnext, Option.or_none, ih hl]

theorem threads_eq (h : Rep s ls) (n : ListName) : threads s n = ls n := by
  rw [threads, count_lists h, head_lists h]
  exact walk_eq (h.linked n)

theorem Sound.due_eq (h : Sound s ls) : due s now = (ls .timer).filter fun a => (s.u a).alarm.le now := by
  rw [due, threads_eq h.toRep]

/-- Where the first timer has not run out, none has. -/
theorem Sound.due_nil (h : Sound s ls) (hfirst : ∀ a ∈ (ls .timer).head?, ¬ (s.u a).alarm.le now) :
    ∀ a ∈ ls .timer, ¬ (s.u a).alarm.le now := by
  have hsorted := h.alarmed.sorted
  cases hl : ls .timer with
  | nil => exact fun a ha => (nomatch ha)
  | cons b l =>
      rw [hl] at hfirst hsorted
      have hb := hfirst b rfl
      intro a ha hle
      obtain rfl | ha := List.mem_cons.mp ha
      · exact hb hle
      · exact hb (Timeval.le_trans ((List.pairwise_cons.mp hsorted).1 a ha) hle)

/-- `thread_timer_process` does what it should if and only if no more than one timer has run out. -/
theorem Sound.timerProcess (h : Sound s ls) (hnow : now.Valid) : ∃ s' ls' k,
    threadTimerProcess s .timer now = some (s', k) ∧ Sound s' ls' ∧
      (Processed.Right ⟨s, now, s', k⟩ ↔ (due s now).length ≤ 1) := by
  by_cases hfirst : ∀ a ∈ (ls .timer).head?, ¬ (s.u a).alarm.le now
  · have hnone := h.due_nil hfirst
    have hdue : due s now = [] := by
      rw [h.due_eq, List.filter_eq_nil_iff]
      exact fun a ha => by simpa using hnone a ha
    refine ⟨s, ls, 0, h.timerProcess_none hnow hfirst, h, iff_of_true ⟨?_, ?_, ?_, ?_⟩ (by simp [hdue])⟩
    · change threads s .timer = _
      rw [eq_comm, List.filter_eq_self, threads_eq h.toRep]
      exact fun a ha => by simpa using hnone a ha
    · change threads s .ready = threads s .ready ++ due s now
      rw [hdue, List.append_nil]
    · change ∀ a ∈ due s now, _
      simp [hdue]
    · change 0 = (due s now).length
      rw [hdue]
      rfl
  · simp only [not_forall, not_not] at hfirst
    obtain ⟨a, ha, hle⟩ := hfirst
    obtain ⟨l, hl⟩ : ∃ l, ls .timer = a :: l := by
      cases hl : ls .timer with
      | nil => simp [hl] at ha
      | cons b l =>
          obtain rfl : b = a := by simpa [hl] using ha
          exact ⟨l, rfl⟩
    have hmoved : Sound (Thread.moved s .timer .ready a .ready) _ :=
      h.moved (show ls .timer = [] ++ a :: l from hl) (by decide) rfl (by decide) (.inl rfl)
    have hdue : due s now = a :: l.filter fun b => (s.u b).alarm.le now := by
      rw [h.due_eq, hl, List.filter_cons_of_pos (by simpa using hle)]
    have htimer : threads (Thread.moved s .timer .ready a .ready) .timer = l := by
      rw [threads_eq hmoved.toRep, Function.update_of_ne (by decide), Function.update_self, List.nil_append]
    have hready : threads (Thread.moved s .timer .ready a .ready) .ready = threads s .ready ++ [a] := by
      rw [threads_eq hmoved.toRep, Function.update_self, threads_eq h.toRep]
    refine ⟨_, _, 1, h.timerProcess_some hnow hl hle, hmoved, ⟨fun hright => ?_, fun hfew => ?_⟩⟩
    · -- only one thread has gone to the ready list
      have hnumber := hright.number
      change 1 = (due s now).length at hnumber
      omega
    · rw [hdue, List.length_cons] at hfew
      have hrest : (l.filter fun b => (s.u b).alarm.le now) = [] := List.length_eq_zero_iff.mp (by omega)
      have hothers : ∀ b ∈ l, ¬ (s.u b).alarm.le now := by
        intro b hb
        simpa using List.filter_eq_nil_iff.mp hrest b hb
      rw [hrest] at hdue
      refine ⟨?_, ?_, ?_, ?_⟩
      · change threads (Thread.moved s .timer .ready a .ready) .timer = (threads s .timer).filter _
        rw [htimer, threads_eq h.toRep, hl, List.filter_cons_of_neg (by simpa using hle), eq_comm,
          List.filter_eq_self]
        exact fun b hb => by simpa using hothers b hb
      · change threads (Thread.moved s .timer .ready a .ready) .ready = threads s .ready ++ due s now
        rw [hready, hdue]
      · change ∀ b ∈ due s now, (Thread.moved s .timer .ready a .ready).type b = .ready
        intro b hb
        rw [hdue, List.mem_singleton] at hb
        rw [hb]
        exact Function.update_self _ _ _
      · change 1 = (due s now).length
        rw [hdue]
        rfl

theorem timers_traced {e : TimerEvent ω} {records os : List (Processed ω)} (h : timers.step s e = ⟨os, some s'⟩) :
    (timers.traced.step (s, records) e).result = some (s', records ++ os) :=
  timers.result_traced_eq_some.mpr ⟨by rw [h], by rw [h]⟩

theorem timers_process {k : Nat} (hs' : threadTimerProcess s .timer now = some (s', k)) :
    timers.step s (.process now) = ⟨[⟨s, now, s', k⟩], some s'⟩ := by
  simp only [timers, hs', Exec.deref_some_bind]
  rfl

variable [Inhabited ω]

/-- Over a whole run the timers are in order and `thread_timer_process` moves all that have run out, if and only if
never more than one has run out when it is called and every timer runs out at a time that is a `long`. -/
theorem timely_iff_few (es : List (TimerEvent ω))
    (hlegal : timers.traced.AllSteps (fun s e => e.Legal s.1) (threadMasterCreate, []) es) :
    timers.traced.Always Timely (threadMasterCreate, []) es ↔
      timers.traced.AllSteps (fun s e => e.Few s.1) (threadMasterCreate, []) es := by
  refine timers.traced.always_iff_of_legal (J := fun s => (∃ ls, Sound s.1 ls) ∧ ∀ r ∈ s.2, r.Right) ?_ ?_ ?_
    ⟨⟨_, sound_create⟩, fun r hr => (nomatch hr)⟩ hlegal
  · rintro s ⟨⟨ls, hsound⟩, hright⟩
    refine ⟨?_, hright⟩
    rw [threads_eq hsound.toRep]
    exact hsound.alarmed.sorted
  · rintro ⟨s, records⟩ e ⟨⟨ls, hsound⟩, hright⟩ hlegal hfew
    cases e with
    | addTimer work timer clock =>
        obtain ⟨s', a, ls', hs', hsound', -⟩ := hsound.addTimer work hlegal.2 hfew
        have hstep : timers.step s (.addTimer work timer clock) = ⟨[], some s'⟩ := by
          simp only [timers, hs', Exec.deref_some_bind]
          rfl
        exact ⟨_, timers_traced hstep, ⟨ls', hsound'⟩, by simpa using hright⟩
    | cancel thread =>
        obtain ⟨n, hn, hunuse⟩ := hsound.exists_mem hlegal
        obtain ⟨s', ls', hs', hsound', -⟩ := hsound.cancel hn hunuse
        have hstep : timers.step s (.cancel thread) = ⟨[], some s'⟩ := by
          simp only [timers, hs']
          rfl
        exact ⟨_, timers_traced hstep, ⟨ls', hsound'⟩, by simpa using hright⟩
    | process now =>
        obtain ⟨s', ls', k, hs', hsound', hiff⟩ := hsound.timerProcess hlegal
        refine ⟨_, timers_traced (timers_process hs'), ⟨ls', hsound'⟩, fun r hr => ?_⟩
        rw [List.mem_append, List.mem_singleton] at hr
        obtain hr | rfl := hr
        · exact hright r hr
        · exact hiff.mpr hfew
  · rintro ⟨s, records⟩ e t ⟨⟨ls, hsound⟩, hright⟩ hlegal hfew ht htimely
    cases e with
    | addTimer work timer clock =>
        obtain ⟨ht, -⟩ := timers.result_traced_eq_some.mp ht
        simp only [timers, addTimer_overflow hfew, Exec.result_bind, Exec.result_deref, Option.bind_none,
          reduceCtorEq] at ht
    | cancel thread => exact hfew trivial
    | process now =>
        obtain ⟨s', ls', k, hs', hsound', hiff⟩ := hsound.timerProcess hlegal
        rw [timers_traced (timers_process hs')] at ht
        obtain rfl := Option.some.inj ht
        exact hfew (hiff.mp (htimely.right _ (by simp)))

end Timers

instance TimerEvent.decidableLegal (s : Master ω) : (e : TimerEvent ω) → Decidable (e.Legal s)
  | .addTimer _ timer clock => inferInstanceAs (Decidable (IsLong timer ∧ clock.Valid))
  | .cancel thread => inferInstanceAs (Decidable (Scheduled s thread))
  | .process now => inferInstanceAs (Decidable now.Valid)

instance TimerEvent.decidableFew (s : Master ω) : (e : TimerEvent ω) → Decidable (e.Few s)
  | .addTimer _ timer clock => inferInstanceAs (Decidable (IsLong (clock.sec + timer)))
  | .cancel _ => inferInstanceAs (Decidable True)
  | .process now => inferInstanceAs (Decidable ((due s now).length ≤ 1))

/-- Three timers, one of them cancelled, that run out one after the other. -/
def timersInTurn : List (TimerEvent Nat) :=
  [.addTimer 1 3 ⟨10, 0⟩, .addTimer 2 1 ⟨10, 500000⟩, .addTimer 3 2 ⟨11, 0⟩, .cancel 2, .process ⟨12, 0⟩,
    .process ⟨13, 0⟩]

theorem timely_iff_few_inTurn : timers.traced.Always Timely (threadMasterCreate, []) timersInTurn :=
  (timely_iff_few timersInTurn (by decide)).mpr (by decide)

/-- Two timers that have both run out. -/
def timersTogether : List (TimerEvent Nat) :=
  [.addTimer 1 1 ⟨10, 0⟩, .addTimer 2 2 ⟨10, 0⟩, .process ⟨20, 0⟩]

theorem not_timely : timers.traced.AllSteps (fun s e => e.Legal s.1) (threadMasterCreate, []) timersTogether ∧
    ¬ timers.traced.Always Timely (threadMasterCreate, []) timersTogether := by
  refine ⟨by decide, fun h => ?_⟩
  obtain ⟨t, ht, htimely⟩ := Machine.Always.run _ h
  obtain ⟨t', ht', r, hr, hne⟩ : ∃ t, (timers.traced.run (threadMasterCreate, []) timersTogether).result = some t ∧
      ∃ r ∈ t.2, r.ready ≠ (due r.before r.now).length := exists_of_any (by decide)
  obtain rfl := Option.some.inj (ht.symm.trans ht')
  exact hne (htimely.right r hr).number

end Harry.Thread
