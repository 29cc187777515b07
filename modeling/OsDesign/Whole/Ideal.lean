import OsDesign.Heap.OwnCalls
import OsDesign.Whole.Contents

/-!
The process as its threads are meant to see it. Each thread has a heap of its own, all of
them see the bytes of the share section, and the scheduler is lists: there are no frames,
no swap file and no window that is copied at a switch. A call that the library promises
nothing about has no outcome.
-/
namespace OsDesign.Whole

open Virt Pthread Heap

/-- `granted` counts the pages that the threads have got, those that ended included. -/
structure Ideal where
  sched : Sched
  own : ThreadId → OwnHeap
  shared : Nat → UInt8
  share : Shm.Charmap
  gPthreadInit : Bool
  granted : Nat

/-- The byte is in a page of the share section. -/
def InShare (address : Nat) : Prop := virtualShareStart ≤ address ∧ address ≤ virtualShareEnd

instance (address : Nat) : Decidable (InShare address) := inferInstanceAs (Decidable (_ ∧ _))

namespace Ideal

/-- The words of the block `ti` that the scheduler reads, as `malloc` returns them. -/
def receive (ti : ThreadId) (block : Contents) (i : Ideal) : Ideal :=
  { i with
    sched := { i.sched with
      mu := Function.update i.sched.mu ti block.mu
      tid := Function.update i.sched.tid ti block.tid } }

/-- The first `my_pthread_init`. -/
def myPthreadInit (main : ThreadId) (block : Contents) (i : Ideal) : Ideal :=
  { i.receive main block with
    sched := { (i.receive main block).sched with
      current := some main
      live := Function.update i.sched.live main true }
    own := Function.update i.own main .fresh
    shared := fun _ => 0
    share := Shm.shinit
    gPthreadInit := true }

def addThread (ti : ThreadId) (block : Contents) (i : Ideal) : Except Failure (Ideal × Answer) :=
  match (i.receive ti block).sched.create ti with
  | .error fault => .error (.pthread fault)
  | .ok (sched, r) =>
      .ok ({ i with sched := sched, own := Function.update i.own ti .fresh }, .returned r)

def myPthreadCreate (main : ThreadId) (mainBlock : Contents) (ti : ThreadId) (block : Contents)
    (i : Ideal) : Except Failure (Ideal × Answer) :=
  if i.gPthreadInit then i.addThread ti block
  else (i.myPthreadInit main mainBlock).addThread ti block

def plainCall (e : Pthread.Event) (i : Ideal) : Except Failure (Ideal × Answer) :=
  match i.sched.call e with
  | .error fault => .error (.pthread fault)
  | .ok (sched, r) => .ok ({ i with sched := sched }, .returned r)

def setOwn (t : ThreadId) (o : OwnHeap) (i : Ideal) : Ideal :=
  { i with
    own := Function.update i.own t o
    granted := i.granted + (o.pages - (i.own t).pages) }

def myMalloc (size : Nat) (i : Ideal) : Option (Except Failure (Ideal × Answer)) :=
  match i.sched.current with
  | none => some (.error (.virt .nullDereference))
  | some t => ((i.own t).myMalloc size).map fun r => .ok (i.setOwn t r.1, .pointer r.2)

def myFree (ptr : Nat) (i : Ideal) : Option (Except Failure (Ideal × Answer)) :=
  match i.sched.current with
  | none => none
  | some t => ((i.own t).myFree ptr).map fun o => .ok (i.setOwn t o, .done)

def load (address : Nat) (i : Ideal) : Option (Except Failure (Ideal × Answer)) :=
  match i.sched.current with
  | none => none
  | some t =>
      if InShare address then some (.ok (i, .byte (i.shared address)))
      else ((i.own t).load address).map fun byte => .ok (i, .byte byte)

def store (address : Nat) (byte : UInt8) (i : Ideal) : Option (Except Failure (Ideal × Answer)) :=
  match i.sched.current with
  | none => none
  | some t =>
      if InShare address then
        some (.ok ({ i with shared := Function.update i.shared address byte }, .done))
      else ((i.own t).store address byte).map fun o => .ok (i.setOwn t o, .done)

def shalloc (size : BitVec 64) (i : Ideal) : Except Failure (Ideal × Answer) :=
  match Shm.shalloc size i.share with
  | .error fault => .error (.share fault)
  | .ok (share, ptr) => .ok ({ i with share := share }, .pointer ptr)

def shfree (ptr : Nat) (size : BitVec 64) (i : Ideal) : Except Failure (Ideal × Answer) :=
  match Shm.shfree ptr size i.share with
  | .error fault => .error (.share fault)
  | .ok share => .ok ({ i with share := share }, .done)

def call (i : Ideal) : Call → Option (Except Failure (Ideal × Answer))
  | .init main block _ =>
      if i.gPthreadInit then none else some (.ok (i.myPthreadInit main block, .done))
  | .create main mainBlock ti block => some (i.myPthreadCreate main mainBlock ti block)
  | .plain e => some (i.plainCall e)
  | .malloc size => i.myMalloc size
  | .free ptr => i.myFree ptr
  | .load address => i.load address
  | .store address byte => i.store address byte
  | .shalloc size => some (i.shalloc size)
  | .shfree ptr size => some (i.shfree ptr size)

@[simp] theorem setOwn_self (i : Ideal) (t : ThreadId) : i.setOwn t (i.own t) = i := by
  simp [setOwn]

/-- The process starts: there are no threads. -/
def start : Ideal where
  sched :=
    { current := none
      ready := []
      wait := []
      mu := fun _ => 0
      tid := fun _ => 0
      table := fun _ => ⟨false, 0⟩
      live := fun _ => false }
  own := fun _ => .fresh
  shared := fun _ => 0
  share := Shm.shinit
  gPthreadInit := false
  granted := 0

end Ideal

end OsDesign.Whole
