import OsDesign.Lib.Clients
import OsDesign.Whole.SideBySide

/-!
The program `tmp2/test.c`. The main thread writes two messages into the share section and
creates the threads `bigspender` and `tester`, which print the message that they are given
and then, for ever, get a block, clear it, copy a string into it, print the string and free
the block. The timer comes between any two calls and any two bytes.
-/
namespace OsDesign.Test

open Virt Pthread Whole

/-- The two threads that `main` creates. -/
inductive Role
  | bigspender
  | tester
  deriving DecidableEq

/-- The bytes of a string in front of its NUL. -/
def bytes (s : String) : List UInt8 := s.toList.map Char.toUInt8

/-- What `main` copies into the page of the thread. -/
def message : Role → List UInt8
  | .bigspender => bytes ("This is the message from main thread, " ++
      "you are the thread bigspender. |||||||| phase D\n")
  | .tester => bytes ("This is the message from main thread, " ++
      "you are the thread tester. |||||||| phase D\n")

/-- What the thread copies into its block. -/
def text : Role → List UInt8
  | .bigspender => bytes "This buffer belongs to the bigspender\n"
  | .tester => bytes "This buffer belongs to the tester\n"

/-- The statements of a thread. Those that go through a buffer are at an index, or have
read some bytes. -/
inductive Point
  | message (read : List UInt8)
  | allocating
  | clearing (i : Nat)
  | copying (i : Nat)
  | reading (read : List UInt8)
  | freeing

/-- The variables of a thread, and where it is. -/
structure Local where
  arg : Nat
  p : Nat
  point : Point

/-- The statements of `main`. -/
inductive MainPoint
  | init
  | sharing (who : Role)
  | clearing (who : Role) (i : Nat)
  | copying (who : Role) (i : Nat)
  | creating (who : Role)
  | joining (who : Role)
  | finished
  deriving DecidableEq

def afterCreate : Role → MainPoint
  | .bigspender => .sharing .tester
  | .tester => .joining .bigspender

def afterJoin : Role → MainPoint
  | .bigspender => .joining .tester
  | .tester => .finished

/-- The variables of `main`, the threads that it created, what `printf` was given for `%s`
so far and by whom, and how many statements each thread has made. -/
structure Globals where
  main : MainPoint
  pshare : Role → Nat
  tid : Role → Nat
  worker : ThreadId → Option (Role × Local)
  printed : List (ThreadId × List UInt8)
  statements : ThreadId → Nat

/-- The timer, or the next statement of the thread that runs; `block` is what `malloc`
returns to `my_pthread_init` and `my_pthread_create`. -/
inductive Turn
  | tick
  | act (ti : ThreadId) (block : Contents)

def byteOf : Answer → UInt8
  | .byte b => b
  | _ => 0

/-- NULL is the address zero. -/
def pointerOf : Answer → Nat
  | .pointer p => p.getD 0
  | _ => 0

def handleOf : Answer → Nat
  | .returned r => r.handle.getD 0
  | _ => 0

/-- Behind the turn `i` of a loop over `n` bytes. -/
def loop {ρ : Type} (i n : Nat) (again : Nat → ρ) (done : ρ) : ρ :=
  if i + 1 < n then again (i + 1) else done

/-- One more byte of a string that `printf` reads, which ends in front of a NUL. -/
def scan (w : Local) (read : List UInt8) (again : List UInt8 → Point) (done : Point) (b : UInt8) :
    Local × Option (List UInt8) :=
  if b = 0 then ({ w with point := done }, some read)
  else ({ w with point := again (read ++ [b]) }, none)

/-- The body of `bigspender` and `tester`: the next call, what its answer leaves of the
variables, and the string that is printed. -/
def threadFunction (text : List UInt8) (w : Local) :
    Call × (Answer → Local × Option (List UInt8)) :=
  match w.point with
  | .message read =>
      (.load (w.arg + read.length), fun a => scan w read .message .allocating (byteOf a))
  | .allocating =>
      (.malloc 512, fun a => ({ w with p := pointerOf a, point := .clearing 0 }, none))
  | .clearing i =>
      (.store (w.p + i) 0, fun _ =>
        ({ w with point := loop i 512 .clearing (.copying 0) }, none))
  | .copying i =>
      -- `strncpy` stops at the length of the string: the NUL is one of the cleared bytes
      (.store (w.p + i) (text.getD i 0), fun _ =>
        ({ w with point := loop i text.length .copying (.reading []) }, none))
  | .reading read =>
      (.load (w.p + read.length), fun a => scan w read .reading .freeing (byteOf a))
  | .freeing => (.free w.p, fun _ => ({ w with point := .allocating }, none))

def bigspender : Local → Call × (Answer → Local × Option (List UInt8)) :=
  threadFunction (text .bigspender)

def tester : Local → Call × (Answer → Local × Option (List UInt8)) :=
  threadFunction (text .tester)

/-- The function that the thread is created with. -/
def body : Role → Local → Call × (Answer → Local × Option (List UInt8))
  | .bigspender => bigspender
  | .tester => tester

theorem join_ne_create (tid : Nat) (ti : ThreadId) : Pthread.Event.join tid ≠ .create ti := by
  intro same
  cases same

theorem tick_ne_create (ti : ThreadId) : Pthread.Event.tick ≠ .create ti := by
  intro same
  cases same

def join (tid : Nat) : PlainEvent := ⟨.join tid, join_ne_create tid⟩

def timer : PlainEvent := ⟨.tick, tick_ne_create⟩

namespace Globals

def goMain (point : MainPoint) (k : Globals) : Globals := { k with main := point }

/-- The next call of `main`. -/
def mainAct (ti : ThreadId) (block : Contents) (k : Globals) :
    Option (Call × (Answer → Globals)) :=
  match k.main with
  | .init => some (.init ti block mmInit, fun _ => k.goMain (.sharing .bigspender))
  | .sharing who =>
      some (.shalloc 512, fun a =>
        { k with
          pshare := Function.update k.pshare who (pointerOf a)
          main := .clearing who 0 })
  | .clearing who i =>
      some (.store (k.pshare who + i) 0, fun _ =>
        k.goMain (loop i 512 (.clearing who) (.copying who 0)))
  | .copying who i =>
      -- `strcpy` copies the NUL too
      some (.store (k.pshare who + i) ((message who).getD i 0), fun _ =>
        k.goMain (loop i ((message who).length + 1) (.copying who) (.creating who)))
  | .creating who =>
      some (.create ti block ti block, fun a =>
        { k with
          tid := Function.update k.tid who (handleOf a)
          worker := Function.update k.worker ti (some (who, ⟨k.pshare who, 0, .message []⟩))
          main := afterCreate who })
  | .joining who =>
      some (.plain (join (k.tid who)), fun _ => k.goMain (afterJoin who))
  | .finished => none

/-- A thread goes on, and prints. -/
def goWorker (t : ThreadId) (who : Role) (w : Local × Option (List UInt8)) (k : Globals) :
    Globals :=
  { k with
    worker := Function.update k.worker t (some (who, w.1))
    printed := k.printed ++ w.2.toList.map (Prod.mk t)
    statements := Function.update k.statements t (k.statements t + 1) }

def workerAct (t : ThreadId) (who : Role) (w : Local) (k : Globals) :
    Call × (Answer → Globals) :=
  ((body who w).1, fun a => k.goWorker t who ((body who w).2 a))

/-- The next statement of the thread that runs. -/
def statement (ti : ThreadId) (block : Contents) (k : Globals) (current : Option ThreadId) :
    Option (Call × (Answer → Globals)) :=
  match current.bind fun t => (k.worker t).map (Prod.mk t) with
  | none => k.mainAct ti block
  | some (t, who, w) => some (k.workerAct t who w)

/-- Until `main` returns. `my_pthread_init` starts the timer. -/
def act (k : Globals) (turn : Turn) (current : Option ThreadId) :
    Option (Call × (Answer → Globals)) :=
  if k.main = .finished then none
  else
    match turn with
    | .tick =>
        if current = none then none
        else some (.plain timer, fun _ => k)
    | .act ti block => k.statement ti block current

def start : Globals where
  main := .init
  pshare := fun _ => 0
  tid := fun _ => 0
  worker := fun _ => none
  printed := []
  statements := fun _ => 0

/-- The strings that a thread has printed. -/
def lines (k : Globals) (t : ThreadId) : List (List UInt8) :=
  (k.printed.filter fun line => line.1 = t).map Prod.snd

end Globals

/-- The program over the library, from the start of the process on. -/
def start : Globals × State := (.start, .start)

def current (s : State) : Option ThreadId := s.system.queues.current

/-- The blocks are new, and that of the main thread is cleared. -/
def Allowed (s : State) (c : Call) : Prop := s.Enabled c ∧ s.MainCleared c

abbrev Permitted : Globals × State → Turn → Prop :=
  Clients.Permitted Globals.act current Allowed

abbrev Step : Globals × State → Turn → Globals × State → Prop :=
  Clients.Step Globals.act current State.call

end OsDesign.Test
