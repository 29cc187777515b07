import OsDesign.Lib.Runs
import OsDesign.Pthread.Sched

/-!
`my_pthread_create` of `code/my_pthread.c` statement by statement, with the timer able to
switch threads between any two statements; the other calls are one step each. The new
thread is on the ready queue before its `tid` is assigned and its entry counted. What a
thread has reached is recorded beside the state; a block from `malloc` is a new thread,
also where the allocator uses an address again.
-/
namespace OsDesign.Code

open Virt Pthread Runs

/-- The next statement of `my_pthread_create`, with the local variables set before it. -/
inductive Statement
  | init
  | allocThreadInfo
  | countThread (ti : ThreadId)
  | getcontext (ti : ThreadId)
  | setStack (ti : ThreadId)
  | setStackSize (ti : ThreadId)
  | setLink (ti : ThreadId)
  | makecontext (ti : ThreadId)
  | insertTail (ti : ThreadId)
  | assignTid (ti : ThreadId)
  | storeHandle (ti : ThreadId)
  | setCount (ti : ThreadId) (thread : Nat)
  deriving DecidableEq

namespace Statement

/-- The thread whose record or table entry is still to be written. -/
def block : Statement → Option ThreadId
  | .init | .allocThreadInfo => none
  | .countThread ti | .getcontext ti | .setStack ti | .setStackSize ti | .setLink ti
  | .makecontext ti | .insertTail ti | .assignTid ti | .storeHandle ti | .setCount ti _ => some ti

/-- Behind `STAILQ_INSERT_TAIL` and not yet behind the write of the count. -/
def inWindow : Statement → Bool
  | .assignTid _ | .storeHandle _ | .setCount _ _ => true
  | _ => false

/-- Behind the assignment of the `tid`. -/
def behindTid : Statement → Bool
  | .storeHandle _ | .setCount _ _ => true
  | _ => false

end Statement

/-- How far a thread has come. -/
inductive Life
  | unknown
  | made
  | started
  | exited
  deriving DecidableEq

/-- The scheduler with the calls of `my_pthread_create` in progress. `assigned` and
`counted` record for which threads `ti->tid = alloc_mutex()` and
`g_mutex_table[*thread].count = 1` were executed. -/
structure Creation where
  sched : Sched
  main : ThreadId
  gPthreadInit : Bool
  gThreadsCnt : Nat
  create : ThreadId → Option Statement
  life : ThreadId → Life
  assigned : ThreadId → Bool
  counted : ThreadId → Bool

/-- The timer; the start of `function(arg)` in the `thread_stub` of `CURRENT`; a call of
`my_pthread_create` and its next statement, with what `malloc` returns and leaves in the
block; another call of the library. -/
inductive Event
  | tick
  | begin
  | enter
  | statement (block : ThreadId) (tid mu : Nat)
  | call (e : Pthread.Event)

namespace Creation

/-- Before `my_pthread_init` the main thread runs although `CURRENT` is NULL. -/
def running (s : Creation) : Option ThreadId :=
  if s.gPthreadInit then s.sched.current else some s.main

def goto (s : Creation) (c : ThreadId) (p : Statement) : Creation :=
  { s with create := Function.update s.create c (some p) }

/-- `my_pthread_init`, which also starts the timer. -/
def pthreadInit (s : Creation) : Creation :=
  if s.gPthreadInit then s
  else { s with sched := { s.sched with current := some s.main }, gPthreadInit := true }

/-- One statement of the call that `c` makes. The statements on the context write nothing
that is kept here; `alloc_mutex` gives -1 when the table is full. -/
def execute (s : Creation) (c block : ThreadId) (tid mu : Nat) : Statement → Option Creation
  | .init => some (s.pthreadInit.goto c .allocThreadInfo)
  | .allocThreadInfo =>
      if s.life block = .unknown then
        some ({ s with
          sched := { s.sched with
            tid := Function.update s.sched.tid block tid
            mu := Function.update s.sched.mu block mu
            live := Function.update s.sched.live block true }
          life := Function.update s.life block .made }.goto c (.countThread block))
      else none
  | .countThread ti => some ({ s with gThreadsCnt := s.gThreadsCnt + 1 }.goto c (.getcontext ti))
  | .getcontext ti => some (s.goto c (.setStack ti))
  | .setStack ti => some (s.goto c (.setStackSize ti))
  | .setStackSize ti => some (s.goto c (.setLink ti))
  | .setLink ti => some (s.goto c (.makecontext ti))
  | .makecontext ti => some (s.goto c (.insertTail ti))
  | .insertTail ti =>
      some ({ s with sched := { s.sched with ready := s.sched.ready ++ [ti] } }.goto c
        (.assignTid ti))
  | .assignTid ti =>
      some ({ s with
        sched := { s.sched with
          table := s.sched.table.allocMutex.1
          tid := Function.update s.sched.tid ti (s.sched.table.allocMutex.2.getD (2 ^ 32 - 1)) }
        assigned := Function.update s.assigned ti true }.goto c (.storeHandle ti))
  | .storeHandle ti => some (s.goto c (.setCount ti (s.sched.tid ti)))
  | .setCount ti thread =>
      if thread < Pthread.maxMutexNum then
        some { s with
          sched := { s.sched with table := s.sched.table.setCount thread 1 }
          counted := Function.update s.counted ti true
          create := Function.update s.create c none }
      else none

/-- A call other than `my_pthread_create` by `c`; a fault ends the run. -/
def call (s : Creation) (c : ThreadId) : Pthread.Event → Option Creation
  | .create _ | .tick => none
  | .exit => s.sched.exit.toOption.map fun r =>
      { s with sched := r.1, life := Function.update s.life c .exited }
  | e => (s.sched.call e).toOption.map fun r => { s with sched := r.1 }

def next (s : Creation) : Event → Option Creation
  | .tick => if s.gPthreadInit then some { s with sched := s.sched.schedule } else none
  | .begin => s.sched.current.bind fun t =>
      if s.life t = .made then some { s with life := Function.update s.life t .started } else none
  | .enter => s.running.bind fun c =>
      if s.life c = .started ∧ s.create c = none then some (s.goto c .init) else none
  | .statement block tid mu => s.running.bind fun c =>
      (s.create c).bind fun p => s.execute c block tid mu p
  | .call e => s.running.bind fun c =>
      if s.life c = .started ∧ s.create c = none then s.call c e else none

def Step (s : Creation) (e : Event) (s' : Creation) : Prop := s.next e = some s'

/-- Process start: the main thread runs and nothing is initialised. -/
def start (main : ThreadId) (tid mu : ThreadId → Nat) : Creation where
  sched := ⟨none, [], [], mu, tid, fun _ => ⟨false, 0⟩, fun t => t == main⟩
  main := main
  gPthreadInit := false
  gThreadsCnt := 0
  create := fun _ => none
  life := fun t => if t = main then .started else .unknown
  assigned := fun _ => false
  counted := fun _ => false

def Init (s : Creation) : Prop := ∃ main tid mu, s = start main tid mu

/-- The thread has a `tid` from `alloc_mutex`, and its entry was given the count 1. -/
def Complete (s : Creation) (t : ThreadId) : Prop := s.assigned t = true ∧ s.counted t = true

/-- A thread starts when it is complete, and the statements of `my_pthread_create` write
to threads that have not exited. -/
def Safe (s : Creation) : Event → Prop
  | .begin => ∀ t, s.sched.current = some t → s.Complete t
  | .statement _ _ _ => ∀ c p ti, s.running = some c → s.create c = some p →
      p.block = some ti → s.life ti ≠ .exited
  | _ => True

/-- The running thread is behind `STAILQ_INSERT_TAIL` of its call and not behind the
write of the count. -/
def InWindow (s : Creation) : Prop :=
  ∃ c p, s.running = some c ∧ s.create c = some p ∧ p.inWindow = true

/-- The timer does not come in the window. -/
def Undisturbed (s : Creation) : Event → Prop
  | .tick => ¬ s.InWindow
  | _ => True

/-- With no timer between its statements a call is the creation of the scheduler on
lists, but for the `mu` word that the block had. -/
theorem create_uninterrupted {s : Creation} {c block : ThreadId} {tid mu h : Nat} {a : Sched}
    (init : s.gPthreadInit = true) (current : s.sched.current = some c)
    (started : s.life c = .started) (idle : s.create c = none) (fresh : s.life block = .unknown)
    (made : s.sched.create block = .ok (a, ⟨0, some h⟩)) (inTable : h < Pthread.maxMutexNum) :
    ∃ s', run (fun _ _ => true) next s
        (.enter :: List.replicate 12 (.statement block tid mu)) = some s' ∧
      s'.sched = { a with mu := Function.update s.sched.mu block mu } ∧ s'.create c = none ∧
      s'.Complete block := by
  cases alloc : s.sched.table.allocMutex with
  | mk table handle =>
      cases handle with
      | none => simp [Sched.create, alloc] at made
      | some h' =>
          simp only [Sched.create, alloc, Except.ok.injEq, Prod.mk.injEq, Return.mk.injEq,
            Option.some.injEq, true_and] at made
          obtain ⟨rfl, rfl⟩ := made
          simp only [List.replicate, run, next, running, init, current, started, idle, and_self,
            if_true, Option.bind_some, goto, Function.update_self, execute, pthreadInit, fresh,
            alloc, Option.getD_some, inTable, Option.some.injEq]
          refine ⟨_, rfl, ?_, ?_, ?_⟩
          · simp
          · simp
          · simp [Complete]

end Creation

end OsDesign.Code
