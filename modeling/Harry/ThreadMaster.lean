import Harry.BaseLinked
import Mathlib.Data.List.Basic
import Mathlib.Algebra.Ring.Int.Defs

/-! `lib/thread.c`: the threads of a scheduler and the lists they are in. A thread is known by its address; it is never
freed, but goes to a list of unused ones, and all the lists are threaded through the same two pointers of the threads.
A failed assertion has no result, nor has a descriptor that is not in an `fd_set`, a sum that is no `long`, or a read of
another member of the union than the one that was written. -/

namespace Harry.Thread

open Harry.Base

/-- The address of a `struct thread`. -/
abbrev Addr := Nat

/-- The types of threads. -/
inductive ThreadType
  | read | write | timer | event | ready | background | unused | execute
  deriving DecidableEq, Repr

/-- The lists of a `struct thread_master`. -/
inductive ListName
  | read | write | timer | event | ready | unuse | background
  deriving DecidableEq, Repr

/-- The list that a type names. -/
def ThreadType.list : ThreadType → Option ListName
  | .read => some .read
  | .write => some .write
  | .timer => some .timer
  | .event => some .event
  | .ready => some .ready
  | .background => some .background
  | .unused => some .unuse
  | .execute => none

/-- `struct timeval`. -/
structure Timeval where
  sec : Int
  usec : Int
  deriving DecidableEq, Repr

/-- The number is a `long`. -/
def IsLong (n : Int) : Prop :=
  -2 ^ 63 ≤ n ∧ n < 2 ^ 63

instance (n : Int) : Decidable (IsLong n) :=
  inferInstanceAs (Decidable (_ ∧ _))

/-- The result of an operation on `long`s. -/
def long (n : Int) : Option Int :=
  if IsLong n then some n else none

/-- The first loop of `timeval_adjust`; it ends within `usec` rounds. -/
def carryOver : Nat → Timeval → Timeval
  | 0, a => a
  | fuel + 1, a => if 1000000 ≤ a.usec then carryOver fuel ⟨a.sec + 1, a.usec - 1000000⟩ else a

/-- The second loop of `timeval_adjust`. -/
def carryBack : Nat → Timeval → Timeval
  | 0, a => a
  | fuel + 1, a => if a.usec < 0 then carryBack fuel ⟨a.sec - 1, a.usec + 1000000⟩ else a

/-- `timeval_adjust`. -/
def timevalAdjust (a : Timeval) : Timeval :=
  let a := carryOver a.usec.toNat a
  let a := carryBack (-a.usec).toNat a
  if a.sec < 0 then ⟨0, 0⟩ else a

/-- `timeval_cmp`. -/
def timevalCmp (a b : Timeval) : Option Int :=
  if a.sec = b.sec then long (a.usec - b.usec) else long (a.sec - b.sec)

/-- `fd_set`. -/
abbrev FdSet := Int → Bool

/-- The descriptor has a bit in an `fd_set`: it is less than `FD_SETSIZE`. -/
def InSet (fd : Int) : Prop :=
  0 ≤ fd ∧ fd < 1024

instance (fd : Int) : Decidable (InSet fd) :=
  inferInstanceAs (Decidable (_ ∧ _))

/-- `FD_ISSET`. -/
def fdIsset (fd : Int) (set : FdSet) : Option Bool :=
  if InSet fd then some (set fd) else none

/-- `FD_SET`. -/
def fdSet (fd : Int) (set : FdSet) : Option FdSet :=
  if InSet fd then some (Function.update set fd true) else none

/-- `FD_CLR`. -/
def fdClr (fd : Int) (set : FdSet) : Option FdSet :=
  if InSet fd then some (Function.update set fd false) else none

/-! ### Threads and lists -/

/-- The union in a `struct thread`. -/
inductive Content
  | val (val : Int)
  | fd (fd : Int)
  | sands (sands : Timeval)
  deriving DecidableEq, Repr

/-- `THREAD_FD`. -/
def Content.fd? : Content → Option Int
  | .fd n => some n
  | _ => none

def Content.sands? : Content → Option Timeval
  | .sands alarm => some alarm
  | _ => none

/-- `struct thread_list`. -/
structure ThreadList where
  head : Option Addr
  tail : Option Addr
  count : Int
  deriving DecidableEq, Repr

/-- `struct thread_master` and the threads it has allocated; `work` is what a thread is to do, its function and the
argument. -/
structure Master (ω : Type) where
  type : Addr → ThreadType
  next : Addr → Option Addr
  prev : Addr → Option Addr
  u : Addr → Content
  work : Addr → ω
  lists : ListName → ThreadList
  readfd : FdSet
  writefd : FdSet
  alloc : Nat

variable {ω : Type}

/-- `thread_master_create`. -/
def threadMasterCreate [Inhabited ω] : Master ω :=
  ⟨fun _ => .read, fun _ => none, fun _ => none, fun _ => .val 0, fun _ => default, fun _ => ⟨none, none, 0⟩,
    fun _ => false, fun _ => false, 0⟩

/-- `thread_list_add`. -/
def threadListAdd (s : Master ω) (list : ListName) (thread : Addr) : Master ω :=
  let l := s.lists list
  { s with
    next := updateAt (Function.update s.next thread none) l.tail (some thread)
    prev := Function.update s.prev thread l.tail
    lists := Function.update s.lists list
      ⟨if l.tail.isSome then l.head else some thread, some thread, l.count + 1⟩ }

/-- `thread_list_add_before`. -/
def threadListAddBefore (s : Master ω) (list : ListName) (point thread : Addr) : Master ω :=
  let l := s.lists list
  { s with
    next := updateAt (Function.update s.next thread (some point)) (s.prev point) (some thread)
    prev := Function.update (Function.update s.prev thread (s.prev point)) point (some thread)
    lists := Function.update s.lists list
      ⟨if (s.prev point).isSome then l.head else some thread, l.tail, l.count + 1⟩ }

/-- `thread_list_delete`. -/
def threadListDelete (s : Master ω) (list : ListName) (thread : Addr) : Master ω :=
  let l := s.lists list
  { s with
    next := Function.update (updateAt s.next (s.prev thread) (s.next thread)) thread none
    prev := Function.update (updateAt s.prev (s.next thread) (s.prev thread)) thread none
    lists := Function.update s.lists list
      ⟨if (s.prev thread).isSome then l.head else s.next thread,
        if (s.next thread).isSome then l.tail else s.prev thread, l.count - 1⟩ }

/-- `thread->type = type`. -/
def setType (s : Master ω) (thread : Addr) (type : ThreadType) : Master ω :=
  { s with type := Function.update s.type thread type }

/-- `thread->u = u`. -/
def setContent (s : Master ω) (thread : Addr) (u : Content) : Master ω :=
  { s with u := Function.update s.u thread u }

/-- `thread_add_unuse`. -/
def threadAddUnuse (s : Master ω) (thread : Addr) : Option (Master ω) :=
  if s.next thread = none ∧ s.prev thread = none ∧ s.type thread = .unused then some (threadListAdd s .unuse thread)
  else none

/-- `thread_trim_head`. -/
def threadTrimHead (s : Master ω) (list : ListName) : Master ω × Option Addr :=
  match (s.lists list).head with
  | some thread => (threadListDelete s list thread, some thread)
  | none => (s, none)

/-- `thread->work = work`. -/
def setWork (s : Master ω) (thread : Addr) (work : ω) : Master ω :=
  { s with work := Function.update s.work thread work }

/-- A new thread at the next address, as `calloc` leaves it. -/
def allocate (s : Master ω) : Master ω :=
  { s with
    next := Function.update s.next s.alloc none
    prev := Function.update s.prev s.alloc none
    u := Function.update s.u s.alloc (.val 0)
    alloc := s.alloc + 1 }

/-- `thread_get`. -/
def threadGet (s : Master ω) (type : ThreadType) (work : ω) : Master ω × Addr :=
  match threadTrimHead s .unuse with
  | (s, some thread) => (setWork (setType s thread type) thread work, thread)
  | (s, none) => (setWork (setType (allocate s) s.alloc type) s.alloc work, s.alloc)

/-- `funcname_thread_add_read`. -/
def threadAddRead (s : Master ω) (work : ω) (fd : Int) : Option (Master ω × Option Addr) := do
  if ← fdIsset fd s.readfd then
    -- there is already a read fd set
    return (s, none)
  else
    let (s, thread) := threadGet s .read work
    let readfd ← fdSet fd s.readfd
    return (threadListAdd (setContent { s with readfd := readfd } thread (.fd fd)) .read thread, some thread)

/-- The loop of `funcname_thread_add_timer_timeval`: the first thread that does not run out before `sands`. -/
def findPoint (s : Master ω) (sands : Timeval) : Nat → Option Addr → Option (Option Addr)
  | _, none => some none
  | 0, some _ => none
  | fuel + 1, some tt => do
    let alarm ← (s.u tt).sands?
    if (← timevalCmp sands alarm) ≤ 0 then return some tt
    else findPoint s sands fuel (s.next tt)

/-- `funcname_thread_add_timer_timeval`, with the reading of the clock. -/
def threadAddTimerTimeval (s : Master ω) (type : ThreadType) (work : ω) (timeRelative clock : Timeval) :
    Option (Master ω × Addr) := do
  if ¬ (type = .timer ∨ type = .background) then none
  let list := if type = .timer then ListName.timer else .background
  let (s, thread) := threadGet s type work
  let sec ← long (clock.sec + timeRelative.sec)
  let usec ← long (clock.usec + timeRelative.usec)
  let sands := timevalAdjust ⟨sec, usec⟩
  let s := setContent s thread (.sands sands)
  match ← findPoint s sands (s.lists list).count.toNat (s.lists list).head with
  | some tt => return (threadListAddBefore s list tt thread, thread)
  | none => return (threadListAdd s list thread, thread)

/-- `funcname_thread_add_timer`. -/
def threadAddTimer (s : Master ω) (work : ω) (timer : Int) (clock : Timeval) : Option (Master ω × Addr) :=
  threadAddTimerTimeval s .timer work ⟨timer, 0⟩ clock

/-- `funcname_thread_add_event`. -/
def threadAddEvent (s : Master ω) (work : ω) (val : Int) : Master ω × Addr :=
  let (s, thread) := threadGet s .event work
  (threadListAdd (setContent s thread (.val val)) .event thread, thread)

/-- The bit that `thread_cancel` clears, if the thread waits for a descriptor. -/
def clearFd (s : Master ω) (thread : Addr) : Option (Master ω) :=
  match s.type thread with
  | .read => do
    let fd ← (s.u thread).fd?
    if ← fdIsset fd s.readfd then
      let readfd ← fdClr fd s.readfd
      return { s with readfd := readfd }
    else none
  | .write => do
    let fd ← (s.u thread).fd?
    if ← fdIsset fd s.writefd then
      let writefd ← fdClr fd s.writefd
      return { s with writefd := writefd }
    else none
  | _ => some s

/-- `thread_cancel`. An unused thread is left alone, and so is one that is in no list. -/
def threadCancel (s : Master ω) (thread : Addr) : Option (Master ω) :=
  match s.type thread with
  | .unused => some s
  | .execute => some s
  | type => do
    let s ← clearFd s thread
    let list ← type.list
    threadAddUnuse (setType (threadListDelete s list thread) thread .unused) thread

/-- What `thread_run` copies for the caller. -/
structure Fetch (ω : Type) where
  type : ThreadType
  u : Content
  work : ω

/-- `thread_run`. -/
def threadRun (s : Master ω) (thread : Addr) : Option (Master ω × Fetch ω) := do
  let fetch : Fetch ω := ⟨s.type thread, s.u thread, s.work thread⟩
  let s ← threadAddUnuse (setType s thread .unused) thread
  return (s, fetch)

/-- The thread goes to the end of the ready list. -/
def makeReady (s : Master ω) (list : ListName) (thread : Addr) : Master ω :=
  setType (threadListAdd (threadListDelete s list thread) .ready thread) thread .ready

/-- The loop of `thread_process_fd` over what is left of a list. `mfdset` is `readfd` for both lists. -/
def processFd (list : ListName) (fdset : FdSet) : Nat → Master ω → Option Addr → Option (Master ω)
  | _, s, none => some s
  | 0, _, some _ => none
  | fuel + 1, s, some thread => do
    let next := s.next thread
    let fd ← (s.u thread).fd?
    if ← fdIsset fd fdset then
      if ← fdIsset fd s.readfd then
        let readfd ← fdClr fd s.readfd
        processFd list fdset fuel (makeReady { s with readfd := readfd } list thread) next
      else none
    else processFd list fdset fuel s next

/-- `thread_process_fd`. -/
def threadProcessFd (s : Master ω) (list : ListName) (fdset : FdSet) : Option (Master ω) :=
  processFd list fdset (s.lists list).count.toNat s (s.lists list).head

/-- The loop of `thread_timer_process` from a thread on, with what it has counted. The thread that it goes on to is the
next one in the list that it has put the thread in. -/
def processTimer (list : ListName) (timenow : Timeval) : Nat → Master ω → Option Addr → Nat → Option (Master ω × Nat)
  | _, s, none, ready => some (s, ready)
  | 0, _, some _, _ => none
  | fuel + 1, s, some thread, ready => do
    let sands ← (s.u thread).sands?
    if (← timevalCmp timenow sands) < 0 then return (s, ready)
    else
      let s := makeReady s list thread
      processTimer list timenow fuel s (s.next thread) (ready + 1)

/-- `thread_timer_process`. -/
def threadTimerProcess (s : Master ω) (list : ListName) (timenow : Timeval) : Option (Master ω × Nat) :=
  processTimer list timenow (s.alloc + 1) s (s.lists list).head 0

/-- What `select` comes back with: its result, the descriptors that are ready, and the time it is then. -/
structure Selected where
  num : Int
  readable : FdSet
  writable : FdSet
  clock : Timeval

/-- The part of `thread_fetch` behind `select`, which leaves of the descriptors it was asked for those that are ready. -/
def afterSelect (s : Master ω) (selected : Selected) : Option (Master ω) := do
  let readfd : FdSet := fun fd => s.readfd fd && selected.readable fd
  let writefd : FdSet := fun fd => s.writefd fd && selected.writable fd
  let (s, _) ← threadTimerProcess s .timer selected.clock
  if 0 < selected.num then
    let s ← threadProcessFd s .read readfd
    threadProcessFd s .write writefd
  else return s

/-- `thread_fetch`, with what `select` comes back with one time after the other; it waits in `select` when there is no
more. -/
def threadFetch : List Selected → Master ω → Option (Master ω × Option (Fetch ω))
  | selecteds, s =>
    match threadTrimHead s .event with
    | (s, some thread) => do
      let (s, fetch) ← threadRun s thread
      return (s, some fetch)
    | (s, none) =>
      match threadTrimHead s .ready with
      | (s, some thread) => do
        let (s, fetch) ← threadRun s thread
        return (s, some fetch)
      | (s, none) =>
        match selecteds with
        | [] => some (s, none)
        | selected :: selecteds => do
          let s ← afterSelect s selected
          match threadTrimHead s .ready with
          | (s, some thread) => do
            let (s, fetch) ← threadRun s thread
            return (s, some fetch)
          | (s, none) => threadFetch selecteds s

end Harry.Thread
