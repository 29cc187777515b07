import OsDesign.Lib.Runs
import OsDesign.Pthread.Calls

/-!
`my_pthread_mutex_lock`, `my_pthread_mutex_unlock` and what they call, one
statement at a time, on one processor. Between any two statements outside the
timer handler and outside the sections of the queue spinlock the timer may run
`schedule`. A context is what `swapcontext` saved in it: the thread whose stack
it uses, and the statement that it goes on with.
-/
namespace OsDesign.Preempt

open Pthread Virt

/-- The next statement of a flow of control. `h` is the handle of the call. An
increment or a decrement reads the count and then writes what it read plus or
minus one. -/
inductive Pc
  | user
  | lockUsed (h : Nat)
  | lockRange (h : Nat)
  | lockTest (h : Nat)
  | takeRead (h : Nat)
  | takeWrite (h : Nat) (v : BitVec 32)
  | waitRead (h : Nat)
  | waitWrite (h : Nat) (v : BitVec 32)
  | setMu (h : Nat)
  | swapEmpty (h : Nat)
  | swapTmp (h : Nat)
  | swapStore (h : Nat) (tmp : ThreadId)
  | swapSection (h : Nat) (tmp : ThreadId)
  | swapContext (h : Nat) (tmp : ThreadId)
  | swapPages (h : Nat)
  | lockReturn (h : Nat) (value : Int)
  | unlockUsed (h : Nat)
  | unlockRange (h : Nat)
  | unlockZero (h : Nat)
  | unlockOne (h : Nat)
  | lastRead (h : Nat)
  | lastWrite (h : Nat) (v : BitVec 32)
  | moreRead (h : Nat)
  | moreWrite (h : Nat) (v : BitVec 32)
  | release (h : Nat)
  | unlockReturn (h : Nat) (value : Int)
  deriving DecidableEq

/-- The flow is about to look for a ready thread that it can leave the processor to. -/
def Pc.looking : Pc → Bool
  | .swapEmpty _ => true
  | _ => false

/-- A flow of control on the stack of `owner`. -/
structure Flow where
  owner : ThreadId
  pc : Pc
  deriving DecidableEq

/-- `context` are the saved contexts of the threads, `running` is the flow that
has the processor. -/
structure Machine where
  queues : Queues
  gMutexTable : MutexTable
  context : ThreadId → Flow
  running : Flow

namespace Machine

def goto (s : Machine) (pc : Pc) : Machine :=
  { s with running := ⟨s.running.owner, pc⟩ }

def setCount (s : Machine) (h : Nat) (count : BitVec 32) : Machine :=
  { s with gMutexTable := s.gMutexTable.setCount h count }

/-- `setcontext(CURRENT->context)` -/
def setcontext (s : Machine) : Except Fault Machine :=
  match s.queues.current with
  | none => .error .nullDereference
  | some next => .ok { s with running := s.context next }

/-- `swapcontext(tmp->context, CURRENT->context)` -/
def swapcontext (s : Machine) (tmp : ThreadId) : Except Fault Machine :=
  ({ s with context := Function.update s.context tmp s.running } : Machine).setcontext

/-- `CURRENT->mu = *mutex` -/
def setMu (s : Machine) (h : Nat) : Except Fault Machine :=
  match s.queues.current with
  | none => .error .nullDereference
  | some current =>
      .ok { s with queues := { s.queues with mu := Function.update s.queues.mu current h } }

/-- `tmp = CURRENT`, read for a thread that is stored and queued. -/
def swapTmp (s : Machine) (h : Nat) : Except Fault Machine :=
  match s.queues.current with
  | none => .error .nullDereference
  | some tmp => .ok (s.goto (.swapStore h tmp))

/-- The statements of `my_pthread_mutex_lock`, with those of
`schedule_swap_current_to_wait` where it calls it. The paging calls and the
statements of a thread outside the calls leave the queues and the mutexes alone. -/
def statement (s : Machine) : Except Fault Machine :=
  match s.running.pc with
  | .user => .ok s
  | .lockUsed h =>
      if maxMutexNum ≤ h then .error .outOfBounds
      else .ok (s.goto (if (s.gMutexTable h).used = false then .lockReturn h (-1)
        else .lockRange h))
  | .lockRange h => .ok (s.goto (if maxMutexNum ≤ h then .lockReturn h (-1) else .lockTest h))
  | .lockTest h =>
      .ok (s.goto (if (s.gMutexTable h).count = 0 then .takeRead h else .waitRead h))
  | .takeRead h => .ok (s.goto (.takeWrite h (s.gMutexTable h).count))
  | .takeWrite h v => .ok ((s.setCount h (v + 1)).goto (.lockReturn h 0))
  | .waitRead h => .ok (s.goto (.waitWrite h (s.gMutexTable h).count))
  | .waitWrite h v => .ok ((s.setCount h (v + 1)).goto (.setMu h))
  | .setMu h => (s.setMu h).map fun s => s.goto (.swapEmpty h)
  | .swapEmpty h =>
      .ok (s.goto (if s.queues.gQueueReady.first = none then .lockReturn h 0 else .swapTmp h))
  | .swapTmp h => s.swapTmp h
  | .swapStore h tmp => .ok (s.goto (.swapSection h tmp))
  | .swapSection h tmp =>
      (s.queues.swapSection tmp).map fun q =>
        ({ s with queues := q } : Machine).goto (.swapContext h tmp)
  | .swapContext h tmp => (s.goto (.swapPages h)).swapcontext tmp
  | .swapPages h => .ok (s.goto (.lockReturn h 0))
  | .lockReturn _ _ => .ok (s.goto .user)
  | .unlockUsed h =>
      if maxMutexNum ≤ h then .error .outOfBounds
      else .ok (s.goto (if (s.gMutexTable h).used = false then .unlockReturn h (-1)
        else .unlockRange h))
  | .unlockRange h =>
      .ok (s.goto (if maxMutexNum ≤ h then .unlockReturn h (-1) else .unlockZero h))
  | .unlockZero h =>
      .ok (s.goto (if (s.gMutexTable h).count = 0 then .unlockReturn h (-1) else .unlockOne h))
  | .unlockOne h =>
      .ok (s.goto (if (s.gMutexTable h).count = 1 then .lastRead h else .moreRead h))
  | .lastRead h => .ok (s.goto (.lastWrite h (s.gMutexTable h).count))
  | .lastWrite h v => .ok ((s.setCount h (v - 1)).goto (.unlockReturn h 0))
  | .moreRead h => .ok (s.goto (.moreWrite h (s.gMutexTable h).count))
  | .moreWrite h v => .ok ((s.setCount h (v - 1)).goto (.release h))
  | .release h =>
      (s.queues.releaseThread h).map fun q =>
        ({ s with queues := q } : Machine).goto (.unlockReturn h 0)
  | .unlockReturn _ _ => .ok (s.goto .user)

/-- `timer_handler`. The handler is not interrupted: a flow that it switched out
goes on behind the statement in front of which the timer came. -/
def schedule (s : Machine) : Except Fault Machine :=
  if s.queues.gQueueReady.first = none then .ok s
  else
    match s.queues.current with
    | none => do
        let q ← s.queues.scheduleSection
        ({ s with queues := q } : Machine).setcontext
    | some tmp => do
        let q ← s.queues.scheduleSection
        ({ s with queues := q } : Machine).swapcontext tmp

/-- Where a thread is: at its saved context unless it is running. -/
def flow (s : Machine) (t : ThreadId) : Flow :=
  if t = s.running.owner then s.running else s.context t

end Machine

/-- A thread calls a function or does its next statement, or the timer expires. -/
inductive Turn
  | lock (h : Nat)
  | unlock (h : Nat)
  | statement
  | preempt
  deriving DecidableEq

/-- So many statements. -/
def Turn.statements (n : Nat) : List Turn := List.replicate n .statement

def Machine.turn (s : Machine) : Turn → Except Fault Machine
  | .lock h => .ok (s.goto (.lockUsed h))
  | .unlock h => .ok (s.goto (.unlockUsed h))
  | .statement => s.statement
  | .preempt => s.schedule

/-- A machine with a record kept next to it: how often a thread has returned
from a lock of a mutex with 0 without having called unlock for it. -/
structure Watched where
  machine : Machine
  holding : Nat → ThreadId → Nat

namespace Watched

def setHolding (s : Watched) (h : Nat) (t : ThreadId) (n : Nat) : Nat → ThreadId → Nat :=
  Function.update s.holding h (Function.update (s.holding h) t n)

def record (s : Watched) : Turn → Nat → ThreadId → Nat
  | .lock _ | .preempt => s.holding
  | .unlock h =>
      s.setHolding h s.machine.running.owner (s.holding h s.machine.running.owner - 1)
  | .statement =>
      match s.machine.running.pc with
      | .lockReturn h 0 =>
          s.setHolding h s.machine.running.owner (s.holding h s.machine.running.owner + 1)
      | _ => s.holding

def next (s : Watched) (e : Turn) : Option Watched :=
  match s.machine.turn e with
  | .ok machine => some ⟨machine, s.record e⟩
  | .error _ => none

def Step (s : Watched) (e : Turn) (s' : Watched) : Prop :=
  s.next e = some s'

/-- All threads are outside the calls, and the initialised mutexes are free. The
count of a mutex has room for two calls of each thread; `g_mutex_table` bounds
the threads by 32, because every created thread has an entry of its own. -/
structure Init (threads : Finset ThreadId) (mutexes : Nat → Bool) (s : Watched) : Prop where
  holds : s.machine.queues.Holds s.machine.queues.ready []
  running : s.machine.queues.current = some s.machine.running.owner
  members : ∀ t, t ∈ s.machine.queues.members s.machine.queues.ready [] ↔ t ∈ threads
  few : 2 * threads.card < 2 ^ 32
  user : ∀ t, t ∈ threads → s.machine.flow t = ⟨t, .user⟩
  free : ∀ h, mutexes h = true → h < maxMutexNum ∧ s.machine.gMutexTable h = ⟨true, 0⟩
  holding : s.holding = fun _ _ => 0

/-- The calls and the waiting of the runs that are spoken of: a thread outside
the calls locks initialised mutexes and unlocks what it holds, and another thread
is ready where a lock looks for one. -/
def Disciplined (mutexes : Nat → Bool) (s : Watched) : Turn → Prop
  | .lock h => s.machine.running.pc = .user ∧ mutexes h = true
  | .unlock h => s.machine.running.pc = .user ∧ 0 < s.holding h s.machine.running.owner
  | .statement =>
      s.machine.running.pc.looking = true → s.machine.queues.gQueueReady.first ≠ none
  | .preempt => True

instance (mutexes : Nat → Bool) (s : Watched) : DecidablePred (s.Disciplined mutexes)
  | .lock h => inferInstanceAs (Decidable (s.machine.running.pc = .user ∧ mutexes h = true))
  | .unlock h => inferInstanceAs (Decidable
      (s.machine.running.pc = .user ∧ 0 < s.holding h s.machine.running.owner))
  | .statement => inferInstanceAs (Decidable
      (s.machine.running.pc.looking = true → s.machine.queues.gQueueReady.first ≠ none))
  | .preempt => inferInstanceAs (Decidable True)

/-- Four threads, of which 0 is running, and the mutexes 1 and 2. -/
def start : Watched where
  machine :=
    { queues :=
        { current := some 0
          list := fun t => if t = 1 then some 2 else if t = 2 then some 3 else none
          mu := fun _ => 0
          gQueueReady := ⟨some 1, .next 3⟩
          gQueueWait := TailQueue.Head.empty
          gQueueSpinlock := false
          gThreadsCnt := 3 }
      gMutexTable := fun h => ⟨h == 1 || h == 2, 0⟩
      context := fun t => ⟨t, .user⟩
      running := ⟨0, .user⟩ }
  holding := fun _ _ => 0

def startThreads : Finset ThreadId := {0, 1, 2, 3}

def startMutexes (h : Nat) : Bool := h == 1 || h == 2

theorem init_start : start.Init startThreads startMutexes := by
  have hready : start.machine.queues.ready = [1, 2, 3] := rfl
  refine ⟨?_, rfl, ?_, by decide, ?_, ?_, rfl⟩
  · rw [hready]
    exact ⟨⟨⟨rfl, rfl, rfl, rfl⟩, rfl, by decide⟩, ⟨rfl, rfl, List.nodup_nil⟩, by decide,
      by decide, rfl⟩
  · intro t
    rw [hready]
    simp [Queues.members, start, startThreads]
  · decide
  · intro h hm
    simp only [startMutexes, Bool.or_eq_true, beq_iff_eq] at hm
    cases hm with
    | inl hm | inr hm =>
        subst hm
        exact ⟨by decide, rfl⟩

/-- The turns one after another, each allowed where it is taken. -/
def execute (allowed : Watched → Turn → Prop) [∀ s, DecidablePred (allowed s)] :
    Watched → List Turn → Option Watched :=
  Runs.run (fun s e => decide (allowed s e)) next

theorem exists_reachable (allowed : Watched → Turn → Prop) [∀ s, DecidablePred (allowed s)]
    (P : Watched → Prop) [DecidablePred P] (es : List Turn)
    (h : (execute allowed start es).any (fun s => decide (P s)) = true) :
    ∃ s, Runs.Reachable (Init startThreads startMutexes) allowed Step s ∧ P s :=
  Runs.exists_reachable_of_run allowed next init_start P es h

end Watched

end OsDesign.Preempt
