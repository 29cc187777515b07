import OsDesign.Pthread.Release
import OsDesign.Virt.Process

/-!
The calls of `my_pthread.c` as functions on the state of the library, each an
uninterrupted step. A call that switches threads ends when the next thread has
the processor and, where it was switched out before, has its pages back. The
calls begin after `my_pthread_init`.
-/
namespace OsDesign.Pthread

open Virt Loops

abbrev maxMutexNum : Nat := 32

/-- `mutex_t` -/
structure MutexT where
  used : Bool
  count : BitVec 32
  deriving DecidableEq

/-- `g_mutex_table` -/
abbrev MutexTable := Nat → MutexT

namespace MutexTable

/-- `alloc_mutex` searches from entry 1; `none` is -1. -/
def allocMutex (table : MutexTable) : MutexTable × Option Nat :=
  match firstIndex (maxMutexNum - 1) (fun i => !(table (i + 1)).used) with
  | none => (table, none)
  | some i => (Function.update table (i + 1) ⟨true, 0⟩, some (i + 1))

/-- `free_mutex` -/
def freeMutex (table : MutexTable) (mu : Nat) : MutexTable :=
  Function.update table mu ⟨false, 0⟩

def setCount (table : MutexTable) (h : Nat) (count : BitVec 32) : MutexTable :=
  Function.update table h ⟨(table h).used, count⟩

end MutexTable

/-- The state of the library: the queues, the `tid` fields, the mutex table and
the paging layer. `live` are the threads whose block is allocated; `entered`
those whose context was saved by `swapcontext`, and `CURRENT`. -/
structure System where
  queues : Queues
  tid : ThreadId → Nat
  gMutexTable : MutexTable
  vm : Vm
  live : ThreadId → Bool
  entered : ThreadId → Bool

/-- What a call gives back: its value, and the handle it stores through its
first argument. -/
structure Return where
  value : Int
  handle : Option Nat
  deriving DecidableEq

namespace System

/-- What comes behind `setcontext` or `swapcontext` for the thread that got the
processor: one that is entered for the first time begins in `thread_stub`. -/
def resume (s : System) : System :=
  match s.queues.current with
  | none => s
  | some next =>
      if s.entered next = true then { s with vm := s.vm.mmSwitchVirtualPages next }
      else { s with entered := Function.update s.entered next true }

def schedule (s : System) : Except Fault System :=
  if s.queues.gQueueReady.first = none then .ok s
  else
    match s.queues.current with
    | none => do
        let q ← s.queues.scheduleSection
        return ({ s with queues := q } : System).resume
    | some tmp => do
        let vm := s.vm.mmStoreVirtualPagesBack tmp
        let q ← s.queues.scheduleSection
        return ({ s with vm := vm, queues := q } : System).resume

/-- With no other thread to schedule the current thread is let go. -/
def scheduleSwapCurrentToWait (s : System) : Except Fault System :=
  if s.queues.gQueueReady.first = none then .ok s
  else
    match s.queues.current with
    | none => .error .nullDereference
    | some tmp => do
        let vm := s.vm.mmStoreVirtualPagesBack tmp
        let q ← s.queues.swapSection tmp
        return ({ s with vm := vm, queues := q } : System).resume

/-- A zeroed block at `ti`, its context set up by `makecontext`. -/
def allocThreadInfo (s : System) (ti : ThreadId) : System :=
  { s with
    queues := { s.queues with
      list := Function.update s.queues.list ti none
      mu := Function.update s.queues.mu ti 0 }
    tid := Function.update s.tid ti 0
    vm := s.vm.clearPagetable ti
    live := Function.update s.live ti true
    entered := Function.update s.entered ti false }

/-- `ti` is the block that `malloc` returns. With a full table the handle is -1
and the write to its count is out of bounds. -/
def myPthreadCreate (ti : ThreadId) (s : System) : Except Fault (System × Return) :=
  match s.gMutexTable.allocMutex with
  | (_, none) => .error .outOfBounds
  | (table, some tid) =>
      let s := s.allocThreadInfo ti
      let s := { s with
        queues := { s.queues with gThreadsCnt := s.queues.gThreadsCnt + 1 }
        tid := Function.update s.tid ti tid
        gMutexTable := table.setCount tid 1 }
      (s.queues.addReady ti).map fun q => ({ s with queues := q }, ⟨0, some tid⟩)

def myPthreadYield (s : System) : Except Fault (System × Return) :=
  s.schedule.map fun s => (s, ⟨0, none⟩)

def timerHandler (s : System) : Except Fault (System × Return) :=
  s.schedule.map fun s => (s, ⟨0, none⟩)

/-- The state behind `CURRENT = NULL`. -/
def retired (s : System) (current : ThreadId) (q : Queues) : System :=
  { s with
    queues := { q with current := none }
    gMutexTable := s.gMutexTable.freeMutex (s.tid current)
    vm := s.vm.freeThreadPages current
    live := Function.update s.live current false }

/-- The end of `CURRENT`; the tail of `thread_stub` makes the same calls. -/
def myPthreadExit (s : System) : Except Fault (System × Return) :=
  match s.queues.current with
  | none => .error .nullDereference
  | some current =>
      match s.queues.releaseAllThread (s.tid current) with
      | .error fault => .error fault
      | .ok q =>
          -- `free_mutex` does not check its index
          if maxMutexNum ≤ s.tid current then .error .outOfBounds
          else (s.retired current q).schedule.map fun s => (s, ⟨0, none⟩)

/-- `count += 1` and `CURRENT->mu = h`, in front of the call of the scheduler. -/
def counted (s : System) (current : ThreadId) (h : Nat) : System :=
  { s with
    gMutexTable := s.gMutexTable.setCount h ((s.gMutexTable h).count + 1)
    queues := { s.queues with mu := Function.update s.queues.mu current h } }

/-- The body that `my_pthread_join` and `my_pthread_mutex_lock` share. The entry
is read before the handle is compared with the size of the table, so that the
comparison never decides. -/
def countAndWait (h : Nat) (s : System) : Except Fault (System × Return) :=
  if maxMutexNum ≤ h then .error .outOfBounds
  else if (s.gMutexTable h).used = false then .ok (s, ⟨-1, none⟩)
  else if (s.gMutexTable h).count = 0 then
    .ok ({ s with gMutexTable := s.gMutexTable.setCount h ((s.gMutexTable h).count + 1) },
      ⟨0, none⟩)
  else
    match s.queues.current with
    | none => .error .nullDereference
    | some current =>
        (s.counted current h).scheduleSwapCurrentToWait.map fun s => (s, ⟨0, none⟩)

def myPthreadJoin (thread : Nat) (s : System) : Except Fault (System × Return) :=
  s.countAndWait thread

def myPthreadMutexLock (mutex : Nat) (s : System) : Except Fault (System × Return) :=
  s.countAndWait mutex

def myPthreadMutexInit (s : System) : Except Fault (System × Return) :=
  match s.gMutexTable.allocMutex with
  | (_, none) => .error .errExit
  | (table, some i) => .ok ({ s with gMutexTable := table }, ⟨0, some i⟩)

def myPthreadMutexUnlock (mutex : Nat) (s : System) : Except Fault (System × Return) :=
  if maxMutexNum ≤ mutex then .error .outOfBounds
  else if (s.gMutexTable mutex).used = false then .ok (s, ⟨-1, none⟩)
  else if (s.gMutexTable mutex).count = 0 then .ok (s, ⟨-1, none⟩)
  else
    let table := s.gMutexTable.setCount mutex ((s.gMutexTable mutex).count - 1)
    if (s.gMutexTable mutex).count = 1 then .ok ({ s with gMutexTable := table }, ⟨0, none⟩)
    else
      (s.queues.releaseThread mutex).map fun q =>
        ({ s with gMutexTable := table, queues := q }, ⟨0, none⟩)

def myPthreadMutexDestroy (mutex : Nat) (s : System) : Except Fault (System × Return) :=
  if maxMutexNum ≤ mutex then .error .outOfBounds
  else if (s.gMutexTable mutex).used = false then .ok (s, ⟨-1, none⟩)
  else .ok ({ s with gMutexTable := s.gMutexTable.freeMutex mutex }, ⟨0, none⟩)

end System

/-- The steps of a run: the calls of the thread `CURRENT`, and the timer. -/
inductive Event
  | create (ti : ThreadId)
  | yield
  | tick
  | exit
  | join (thread : Nat)
  | mutexInit
  | lock (mutex : Nat)
  | unlock (mutex : Nat)
  | destroy (mutex : Nat)
  deriving DecidableEq

namespace System

def call (s : System) : Event → Except Fault (System × Return)
  | .create ti => s.myPthreadCreate ti
  | .yield => s.myPthreadYield
  | .tick => s.timerHandler
  | .exit => s.myPthreadExit
  | .join thread => s.myPthreadJoin thread
  | .mutexInit => s.myPthreadMutexInit
  | .lock mutex => s.myPthreadMutexLock mutex
  | .unlock mutex => s.myPthreadMutexUnlock mutex
  | .destroy mutex => s.myPthreadMutexDestroy mutex

def Step (s : System) (e : Event) (s' : System) : Prop :=
  ∃ r, s.call e = .ok (s', r)

/-- `malloc` returns a block that no live thread has. -/
def Enabled (s : System) : Event → Prop
  | .create ti => s.live ti = false
  | _ => True

/-- The state after `my_pthread_init`. The `list`, `mu` and `tid` fields of the
main thread are whatever `malloc` left in its block. -/
structure Init (main : ThreadId) (s : System) : Prop where
  current : s.queues.current = some main
  ready : s.queues.gQueueReady = TailQueue.Head.empty
  wait : s.queues.gQueueWait = TailQueue.Head.empty
  unlocked : s.queues.gQueueSpinlock = false
  gThreadsCnt : s.queues.gThreadsCnt = 0
  gMutexTable : s.gMutexTable = fun _ => ⟨false, 0⟩
  vm : s.vm = mmInit
  live : s.live = fun t => t == main
  entered : s.entered = fun t => t == main

/-- One such state: the block of the main thread zeroed but for its `tid`. -/
def start (main : ThreadId) (tid : Nat) : System where
  queues :=
    { current := some main
      list := fun _ => none
      mu := fun _ => 0
      gQueueReady := TailQueue.Head.empty
      gQueueWait := TailQueue.Head.empty
      gQueueSpinlock := false
      gThreadsCnt := 0 }
  tid := Function.update (fun _ => 0) main tid
  gMutexTable := fun _ => ⟨false, 0⟩
  vm := mmInit
  live := fun t => t == main
  entered := fun t => t == main

theorem init_start (main : ThreadId) (tid : Nat) : (start main tid).Init main :=
  ⟨rfl, rfl, rfl, rfl, rfl, rfl, rfl, rfl, rfl⟩

instance (s : System) : DecidablePred s.Enabled
  | .create ti => inferInstanceAs (Decidable (s.live ti = false))
  | .yield | .tick | .exit | .join _ | .mutexInit | .lock _ | .unlock _ | .destroy _ =>
      inferInstanceAs (Decidable True)

/-- The state behind a call that comes back. -/
def next (s : System) (e : Event) : Option System :=
  match s.call e with
  | .ok (s', _) => some s'
  | .error _ => none

/-- The calls one after another, each enabled where it is made. -/
def execute : System → List Event → Option System :=
  Runs.run (fun s e => decide (s.Enabled e)) next

theorem step_of_next {s s' : System} {e : Event} (h : s.next e = some s') : s.Step e s' := by
  rw [next] at h
  cases hcall : s.call e with
  | error fault => simp [hcall] at h
  | ok outcome =>
      simp only [hcall, Option.some.injEq] at h
      exact ⟨outcome.2, by rw [hcall, ← h]⟩

theorem reachable_of_execute {main : ThreadId} {tid : Nat} {es : List Event} {s : System}
    (h : (start main tid).execute es = some s) :
    Runs.Reachable (Init main) Enabled Step s := by
  refine ⟨start main tid, es, init_start main tid, ?_⟩
  have run := Runs.steps_of_run _ _ h
  refine run.mapStep ?_
  exact fun s e s' permitted taken => ⟨of_decide_eq_true permitted, step_of_next taken⟩

/-- The paging layer's view of the state. -/
def process (s : System) : Process where
  vm := s.vm
  current := s.queues.current
  live := s.live
  entered := s.entered

end System

end OsDesign.Pthread
