import OsDesign.Code.Lists
import OsDesign.Lib.LockedSum

/-!
The programs of `Benchmark/` on the library of `code/`. The main thread makes a mutex,
creates `thread_num` threads that all run one function, joins them in the order of their
creation, prints the sum and destroys the mutex. A thread whose function is done ends in
`thread_stub`. The timer comes between any two statements, not within a call of the library.
-/
namespace OsDesign.Benchmark

open Virt Pthread Code LockedSum

/-- What the programs differ in: the number of threads, the variable that is printed, and
the function of the threads at the value that `arg` points to. -/
structure Program (κ ν σ : Type) where
  threadNum : Nat
  acc : κ
  begins : Nat → σ
  code : Nat → σ → Action κ ν σ

/-- The statements of `main`, from `pthread_mutex_init` to the end. -/
inductive MainPoint
  | mutexInit
  | creating (i : Nat)
  | joining (i : Nat)
  | printing
  | destroying
  | finished
  deriving DecidableEq

/-- A program that runs: the library, the variables of the threads, the globals `mutex` and
`thread`, the main thread, and what every other thread is at. -/
structure Client (κ ν σ : Type) where
  library : Library
  memory : κ → ν
  mutex : Nat
  thread : Nat → Nat
  main : MainPoint
  worker : ThreadId → Option (Nat × σ)
  printed : Option ν

/-- The timer, or the next statement of the thread that runs; `ti` is the block that
`malloc` returns to `my_pthread_create`. -/
inductive Turn
  | tick
  | act (u : Unspecified) (ti : ThreadId)

namespace Client

variable {κ ν σ : Type}

/-- A call of the library, and what the caller does with what it gives back. -/
def calls (c : Client κ ν σ) (u : Unspecified) (e : Pthread.Event)
    (go : Return → Client κ ν σ → Client κ ν σ) : Except Fault (Client κ ν σ) :=
  (c.library.call u e).map fun outcome => go outcome.2 { c with library := outcome.1 }

def goTo (t : ThreadId) (n : Nat) (s : σ) (c : Client κ ν σ) : Client κ ν σ :=
  { c with worker := Function.update c.worker t (some (n, s)) }

def goMain (point : MainPoint) (c : Client κ ν σ) : Client κ ν σ :=
  { c with main := point }

/-- The next statement of `main`. -/
def mainAct (P : Program κ ν σ) (u : Unspecified) (ti : ThreadId) (c : Client κ ν σ) :
    Except Fault (Client κ ν σ) :=
  match c.main with
  | .mutexInit =>
      c.calls u .mutexInit fun r c =>
        { c with mutex := r.handle.getD c.mutex, main := .creating 0 }
  | .creating i =>
      if i < P.threadNum then
        c.calls u (.create ti) fun r c =>
          { c with
            thread := Function.update c.thread i (r.handle.getD (c.thread i))
            worker := Function.update c.worker ti (some (i, P.begins i))
            main := .creating (i + 1) }
      else .ok (c.goMain (.joining 0))
  | .joining i =>
      if i < P.threadNum then
        c.calls u (.join (c.thread i)) fun _ c => c.goMain (.joining (i + 1))
      else .ok (c.goMain .printing)
  | .printing => .ok { c with printed := some (c.memory P.acc), main := .destroying }
  | .destroying => c.calls u (.destroy c.mutex) fun _ c => c.goMain .finished
  | .finished => .ok c

/-- The next action of the thread `t`, which runs the function with the argument `n` and is
at `s`. A lock that waits gives the processor away; its caller goes on behind the call. -/
def workerAct [DecidableEq κ] (P : Program κ ν σ) (u : Unspecified) (t : ThreadId) (n : Nat)
    (s : σ) (c : Client κ ν σ) : Except Fault (Client κ ν σ) :=
  match P.code n s with
  | .silent next => .ok (c.goTo t n next)
  | .lock next => c.calls u (.lock c.mutex) fun _ c => c.goTo t n next
  | .unlock next => c.calls u (.unlock c.mutex) fun _ c => c.goTo t n next
  | .read var next => .ok (c.goTo t n (next (c.memory var)))
  | .write var value next =>
      .ok ({ c with memory := Function.update c.memory var value }.goTo t n next)
  | .stop => c.calls u .exit fun _ c => { c with worker := Function.update c.worker t none }

/-- The thread that runs goes one statement further. -/
def act [DecidableEq κ] (P : Program κ ν σ) (u : Unspecified) (ti : ThreadId)
    (c : Client κ ν σ) : Except Fault (Client κ ν σ) :=
  match c.library.queues.current with
  | none => .error .nullDereference
  | some t =>
      match c.worker t with
      | none => c.mainAct P u ti
      | some (n, s) => c.workerAct P u t n s

def turn [DecidableEq κ] (P : Program κ ν σ) (c : Client κ ν σ) :
    Turn → Except Fault (Client κ ν σ)
  | .tick => c.calls ⟨0, 0⟩ .tick fun _ c => c
  | .act u ti => c.act P u ti

/-- Until the end of `main`, with a block that no live thread has. -/
def Enabled (c : Client κ ν σ) : Turn → Prop
  | .tick => True
  | .act _ ti => c.main ≠ .finished ∧ c.library.live ti = false

def Step [DecidableEq κ] (P : Program κ ν σ) (c : Client κ ν σ) (e : Turn)
    (c' : Client κ ν σ) : Prop :=
  c.turn P e = .ok c'

/-- In front of `pthread_mutex_init`, with the variables set. `my_pthread_init`, which the
first `pthread_create` calls, is done in front of it. -/
structure Init (memory : κ → ν) (main : ThreadId) (c : Client κ ν σ) : Prop where
  library : c.library.Init main
  memory : c.memory = memory
  main : c.main = .mutexInit
  worker : c.worker = fun _ => none
  printed : c.printed = none

def start (memory : κ → ν) (main : ThreadId) : Client κ ν σ where
  library := Library.start main
  memory := memory
  mutex := 0
  thread := fun _ => 0
  main := .mutexInit
  worker := fun _ => none
  printed := none

theorem init_start (memory : κ → ν) (main : ThreadId) :
    (start memory main : Client κ ν σ).Init memory main :=
  ⟨Library.init_start main, rfl, rfl, rfl, rfl⟩

def next [DecidableEq κ] (P : Program κ ν σ) (c : Client κ ν σ) (e : Turn) :
    Option (Client κ ν σ) :=
  (c.turn P e).toOption

theorem steps_of_next [DecidableEq κ] {P : Program κ ν σ} {c c' : Client κ ν σ} {es : List Turn}
    (run : Runs.Steps Enabled (fun c e c' => c.next P e = some c') c es c') :
    Runs.Steps Enabled (Step P) c es c' :=
  run.mapStep fun _ _ _ permitted taken =>
    ⟨permitted, Outcome.toOption_eq_some_iff.mp taken⟩

instance (c : Client κ ν σ) : DecidablePred c.Enabled
  | .tick => inferInstanceAs (Decidable True)
  | .act _ ti => inferInstanceAs (Decidable (c.main ≠ .finished ∧ c.library.live ti = false))

end Client

/-- Two statements and the timer, so many times. -/
def rounds (n : Nat) : List Turn :=
  (List.range n).flatMap fun i => [.act ⟨7, 5⟩ (3 * i + 1), .act ⟨7, 5⟩ (3 * i + 2), .tick]

end OsDesign.Benchmark
