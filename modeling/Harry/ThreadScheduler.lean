import Harry.BaseExec
import Harry.ThreadLists

/-! The scheduler of `lib/thread.c` over whole runs: threads are added and cancelled, and `thread_fetch` takes them one
after the other, whatever `select` comes back with. Every thread is in the list that its type names and the descriptors
are those of the threads in the read list, and of what was to be done nothing is lost and nothing done twice. That
takes descriptors that have a bit in an `fd_set`: `funcname_thread_add_read` sets the bit without a look at the
number. -/

namespace Harry.Thread

open Harry.Base

/-- A call of the scheduler. -/
inductive Event (ω : Type)
  | addRead (work : ω) (fd : Int)
  | addTimer (work : ω) (timer : Int) (clock : Timeval)
  | addEvent (work : ω) (val : Int)
  | cancel (thread : Addr)
  | fetch (selecteds : List Selected)

/-- What becomes of something to do. -/
inductive Output (ω : Type)
  | scheduled (work : ω)
  | cancelled (work : ω)
  | run (work : ω)

variable {ω : Type}

def Output.scheduled? : Output ω → Option ω
  | .scheduled work => some work
  | _ => none

def Output.done? : Output ω → Option ω
  | .cancelled work => some work
  | .run work => some work
  | .scheduled _ => none

/-- What was scheduled and what was run or cancelled. -/
def worksOf (f : Output ω → Option ω) (outs : List (Output ω)) : Multiset ω :=
  (outs.filterMap f : Multiset ω)

/-- The scheduler with its callers. -/
def scheduler : Machine (Master ω) (Event ω) (Output ω) where
  step s
    | .addRead work fd => do
      let (s, thread) ← Exec.deref (threadAddRead s work fd)
      Exec.when (thread.isSome = true) (Exec.emit (.scheduled work))
      pure s
    | .addTimer work timer clock => do
      let (s, _) ← Exec.deref (threadAddTimer s work timer clock)
      Exec.emit (.scheduled work)
      pure s
    | .addEvent work val => do
      Exec.emit (.scheduled work)
      pure (threadAddEvent s work val).1
    | .cancel thread => do
      Exec.emit (.cancelled (s.work thread))
      Exec.deref (threadCancel s thread)
    | .fetch selecteds => do
      let (s, fetch) ← Exec.deref (threadFetch selecteds s)
      match fetch with
      | some fetch => do
        Exec.emit (.run fetch.work)
        pure s
      | none => pure s

/-- Calls with numbers of their types, times that the clock shows, and threads that can be cancelled. -/
def Event.Legal (s : Master ω) : Event ω → Prop
  | .addRead _ fd => -2 ^ 31 ≤ fd ∧ fd < 2 ^ 31
  | .addTimer _ timer clock => IsLong timer ∧ clock.Valid
  | .addEvent _ val => -2 ^ 31 ≤ val ∧ val < 2 ^ 31
  | .cancel thread => Scheduled s thread
  | .fetch selecteds => ∀ x ∈ selecteds, x.clock.Valid

/-- The descriptor has a bit, and the time at which a timer runs out is a `long`. -/
def Event.Fits : Event ω → Prop
  | .addRead _ fd => InSet fd
  | .addTimer _ timer clock => IsLong (clock.sec + timer)
  | _ => True

/-- The books of the scheduler: the links, ends and counts of the lists agree, every thread is in one list, that of its
type, and the descriptors that are set have one thread each. -/
structure Kept (s : Master ω) (ls : ListName → List Addr) : Prop extends Rep s ls where
  everywhere : ∀ a, a < s.alloc ↔ ∃ n, a ∈ ls n
  named : ∀ n, ∀ a ∈ ls n, (s.type a).list = some n
  watched : ∀ fd, s.readfd fd = true ↔ ∃ a, (a ∈ ls .read ∧ s.u a = .fd fd) ∧
    ∀ b, b ∈ ls .read ∧ s.u b = .fd fd → b = a

/-- The books are kept, and what was scheduled has been run or cancelled once, or it waits. -/
def Books (s : Master ω × List (Output ω)) : Prop :=
  ∃ ls, Kept s.1 ls ∧ worksOf Output.scheduled? s.2 = worksOf Output.done? s.2 + pending s.1.work ls

section Runs

variable {s s' : Master ω} {ls ls' : ListName → List Addr} {outs : List (Output ω)}

theorem Sound.kept (h : Sound s ls) : Kept s ls := by
  refine ⟨h.toRep, fun a => ?_, h.named, fun fd => ⟨fun hfd => ?_, ?_⟩⟩
  · rw [h.everywhere]
    simp
  · obtain ⟨a, ha, hu⟩ := h.watched.watched fd hfd
    exact ⟨a, ⟨ha, hu⟩, fun b hb => h.watched.single b hb.1 a ha (hb.2.trans hu.symm)⟩
  · rintro ⟨a, ⟨ha, hu⟩, -⟩
    obtain ⟨n, -, hn, hset⟩ := h.watched.readers a ha
    rw [hu, Content.fd.injEq] at hn
    rwa [hn]

/-- What is known of the scheduler on the way. -/
def Accounted (s : Master ω) (outs : List (Output ω)) : Prop :=
  ∃ ls, Sound s ls ∧ worksOf Output.scheduled? outs = worksOf Output.done? outs + pending s.work ls

theorem traced_step {e : Event ω} {os : List (Output ω)} (h : scheduler.step s e = ⟨os, some s'⟩) :
    (scheduler.traced.step (s, outs) e).result = some (s', outs ++ os) :=
  scheduler.result_traced_eq_some.mpr ⟨by rw [h], by rw [h]⟩

theorem worksOf_append (f : Output ω → Option ω) (outs outs' : List (Output ω)) :
    worksOf f (outs ++ outs') = worksOf f outs + worksOf f outs' := by
  rw [worksOf, List.filterMap_append, ← Multiset.coe_add]
  rfl

theorem accounted_scheduled {n : ListName} {work : ω} (hsound : Sound s' ls') (henters : Enters s ls s' ls' n work)
    (hn : n ≠ .unuse)
    (hbooks : worksOf Output.scheduled? outs = worksOf Output.done? outs + pending s.work ls) :
    Accounted s' (outs ++ [.scheduled work]) := by
  have hone : worksOf Output.scheduled? [.scheduled work] = {work} := rfl
  have hnone : worksOf Output.done? [Output.scheduled work] = 0 := rfl
  refine ⟨ls', hsound, ?_⟩
  rw [worksOf_append, worksOf_append, hone, hnone, henters.pending hn, hbooks, add_zero, Multiset.add_cons,
    ← Multiset.singleton_add, add_comm]

theorem accounted_done {out : Output ω} {work : ω} (hsound : Sound s' ls')
    (hpending : pending s.work ls = work ::ₘ pending s'.work ls')
    (hout : out = .cancelled work ∨ out = .run work)
    (hbooks : worksOf Output.scheduled? outs = worksOf Output.done? outs + pending s.work ls) :
    Accounted s' (outs ++ [out]) := by
  have hone : worksOf Output.done? [out] = {work} := by
    obtain rfl | rfl := hout <;> rfl
  have hnone : worksOf Output.scheduled? [out] = 0 := by
    obtain rfl | rfl := hout <;> rfl
  refine ⟨ls', hsound, ?_⟩
  rw [worksOf_append, worksOf_append, hone, hnone, hbooks, hpending, add_zero, add_assoc, Multiset.singleton_add]

/-- A call that fits keeps the books. -/
theorem accounted_step {e : Event ω} (h : Accounted s outs) (hlegal : e.Legal s) (hfits : e.Fits) :
    ∃ t, (scheduler.traced.step (s, outs) e).result = some t ∧ Accounted t.1 t.2 := by
  obtain ⟨ls, hsound, hbooks⟩ := h
  cases e with
  | addRead work fd =>
      by_cases hfd : s.readfd fd = true
      · have hstep : scheduler.step s (.addRead work fd) = ⟨[], some s⟩ := by
          simp only [scheduler, addRead_set hfits hfd, Exec.deref_some_bind]
          rfl
        exact ⟨_, traced_step hstep, ls, hsound, by rwa [List.append_nil]⟩
      · obtain ⟨s', a, ls', hs', hsound', henters⟩ := hsound.addRead work hfits (by simpa using hfd)
        have hstep : scheduler.step s (.addRead work fd) = ⟨[.scheduled work], some s'⟩ := by
          simp only [scheduler, hs', Exec.deref_some_bind]
          rfl
        exact ⟨_, traced_step hstep, accounted_scheduled hsound' henters (by decide) hbooks⟩
  | addTimer work timer clock =>
      obtain ⟨s', a, ls', hs', hsound', henters⟩ := hsound.addTimer work hlegal.2 hfits
      have hstep : scheduler.step s (.addTimer work timer clock) = ⟨[.scheduled work], some s'⟩ := by
        simp only [scheduler, hs', Exec.deref_some_bind]
        rfl
      exact ⟨_, traced_step hstep, accounted_scheduled hsound' henters (by decide) hbooks⟩
  | addEvent work val =>
      obtain ⟨s', a, ls', hs', hsound', henters⟩ := hsound.addEvent work val
      have hstep : scheduler.step s (.addEvent work val) = ⟨[.scheduled work], some s'⟩ := by
        simp only [scheduler, hs']
        rfl
      exact ⟨_, traced_step hstep, accounted_scheduled hsound' henters (by decide) hbooks⟩
  | cancel thread =>
      obtain ⟨n, hn, hunuse⟩ := hsound.exists_mem hlegal
      obtain ⟨s', ls', hs', hsound', hleaves⟩ := hsound.cancel hn hunuse
      have hstep : scheduler.step s (.cancel thread) = ⟨[.cancelled (s.work thread)], some s'⟩ := by
        simp only [scheduler, hs']
        rfl
      exact ⟨_, traced_step hstep, accounted_done hsound' (hleaves.pending hunuse) (.inl rfl) hbooks⟩
  | fetch selecteds =>
      obtain ⟨s', ls', o, hs', hsound', hwork, hfetched⟩ := hsound.fetch hlegal
      cases o with
      | none =>
          have hstep : scheduler.step s (.fetch selecteds) = ⟨[], some s'⟩ := by
            simp only [scheduler, hs', Exec.deref_some_bind]
            rfl
          refine ⟨_, traced_step hstep, ls', hsound', ?_⟩
          rw [List.append_nil, hwork]
          exact hbooks.trans (congrArg (worksOf Output.done? outs + ·) hfetched.symm)
      | some fetch =>
          have hstep : scheduler.step s (.fetch selecteds) = ⟨[.run fetch.work], some s'⟩ := by
            simp only [scheduler, hs', Exec.deref_some_bind]
            rfl
          exact ⟨_, traced_step hstep, accounted_done hsound' (by rw [hwork]; exact hfetched) (.inr rfl) hbooks⟩

/-- A call that does not fit has no result. -/
theorem step_of_not_fits {e : Event ω} (hfits : ¬ e.Fits) : (scheduler.step s e).result = none := by
  cases e with
  | addRead work fd =>
      have hnone : threadAddRead s work fd = none := by
        have hin : fdIsset fd s.readfd = none := if_neg hfits
        rw [threadAddRead, hin]
        rfl
      simp only [scheduler, hnone, Exec.result_bind, Exec.result_deref, Option.bind_none]
  | addTimer work timer clock =>
      simp only [scheduler, addTimer_overflow hfits, Exec.result_bind, Exec.result_deref, Option.bind_none]
  | addEvent work val => exact absurd trivial hfits
  | cancel thread => exact absurd trivial hfits
  | fetch selecteds => exact absurd trivial hfits

variable [Inhabited ω]

/-- The books are kept over a whole run, and no assertion fails, if and only if every descriptor that is added has a bit
in an `fd_set` and every timer runs out at a time that is a `long`. -/
theorem books_iff_fits (es : List (Event ω))
    (hlegal : scheduler.traced.AllSteps (fun s e => e.Legal s.1) (threadMasterCreate, []) es) :
    scheduler.traced.Always Books (threadMasterCreate, []) es ↔
      scheduler.traced.AllSteps (fun _ e => e.Fits) (threadMasterCreate, []) es := by
  refine scheduler.traced.always_iff_of_legal (J := fun s => Accounted s.1 s.2) ?_ ?_ ?_ ⟨_, sound_create, rfl⟩ hlegal
  · rintro s ⟨ls, hsound, hbooks⟩
    exact ⟨ls, hsound.kept, hbooks⟩
  · rintro ⟨s, outs⟩ e h hlegal hfits
    exact accounted_step h hlegal hfits
  · rintro ⟨s, outs⟩ e t - - hfits ht
    obtain ⟨ht, -⟩ := scheduler.result_traced_eq_some.mp ht
    rw [step_of_not_fits hfits] at ht
    cases ht

end Runs

instance Event.decidableLegal (s : Master ω) : (e : Event ω) → Decidable (e.Legal s)
  | .addRead _ _ => inferInstanceAs (Decidable (_ ∧ _))
  | .addTimer _ _ _ => inferInstanceAs (Decidable (_ ∧ _))
  | .addEvent _ _ => inferInstanceAs (Decidable (_ ∧ _))
  | .cancel thread => inferInstanceAs (Decidable (Scheduled s thread))
  | .fetch selecteds => inferInstanceAs (Decidable (∀ x ∈ selecteds, x.clock.Valid))

instance Event.decidableFits : (e : Event ω) → Decidable e.Fits
  | .addRead _ fd => inferInstanceAs (Decidable (InSet fd))
  | .addTimer _ timer clock => inferInstanceAs (Decidable (IsLong (clock.sec + timer)))
  | .addEvent _ _ => inferInstanceAs (Decidable True)
  | .cancel _ => inferInstanceAs (Decidable True)
  | .fetch _ => inferInstanceAs (Decidable True)

/-- A reader, two timers, one of them cancelled, and two rounds in which all runs that is left. -/
def sampleRun : List (Event Nat) :=
  [.addRead 1 5, .addTimer 2 3 ⟨10, 0⟩, .addTimer 3 1 ⟨10, 0⟩, .cancel 1, .addEvent 4 0, .fetch [],
    .fetch [⟨1, fun _ => true, fun _ => false, ⟨12, 0⟩⟩], .fetch []]

theorem books_iff_fits_sample : scheduler.traced.Always Books (threadMasterCreate, []) sampleRun :=
  (books_iff_fits sampleRun (by decide)).mpr (by decide)

/-- A descriptor that could not be opened has no bit. -/
theorem not_books :
    scheduler.traced.AllSteps (fun s e => e.Legal s.1) (threadMasterCreate, []) [Event.addRead () (-1)] ∧
      ¬ scheduler.traced.Always Books (threadMasterCreate, []) [Event.addRead () (-1)] := by
  refine ⟨by decide, ?_⟩
  rintro ⟨-, t, ht, -⟩
  obtain ⟨ht, -⟩ := scheduler.result_traced_eq_some.mp ht
  rw [step_of_not_fits (by decide)] at ht
  cases ht

end Harry.Thread
