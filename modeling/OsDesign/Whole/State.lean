import OsDesign.Heap.MyMalloc
import OsDesign.Pthread.Simulation
import OsDesign.Shm.Pages

/-!
The whole of `tmp2` from the start of the process on: the scheduler with its mutexes, the
paging layer, the heaps of the threads and the share section. `CURRENT` is null until
`my_pthread_init`. A block that `malloc` returns arrives with contents, and only
`alloc_thread_info` clears them.
-/
namespace OsDesign.Whole

open Virt Pthread Heap

/-- What `malloc` left in the block of a `thread_info_t`, by the fields that are read. -/
structure Contents where
  list : Option ThreadId
  mu : Nat
  tid : Nat
  pagetables : Nat → Mmpte
  heapInit : Bool
  heapTrunkCount : Nat

/-- The library, the two words of each thread that belong to its heap, and the globals
of `my_malloc.c` and `shm.c`. -/
structure State where
  system : System
  heapInit : ThreadId → Bool
  heapTrunkCount : ThreadId → Nat
  gMetadata : Nat
  gHeapPages : Nat
  share : Shm.Charmap
  gPthreadInit : Bool

/-- The calls and the timer, but for the creation of a thread. -/
abbrev PlainEvent := { e : Pthread.Event // ∀ ti, e ≠ .create ti }

/-- The calls, the accesses of the program and the timer. The blocks of a call are those
that `malloc` returns to it, with their contents. -/
inductive Call
  | init (main : ThreadId) (block : Contents) (again : Vm)
  | create (main : ThreadId) (mainBlock : Contents) (ti : ThreadId) (block : Contents)
  | plain (e : PlainEvent)
  | malloc (size : Nat)
  | free (ptr : Nat)
  | load (address : Nat)
  | store (address : Nat) (byte : UInt8)
  | shalloc (size : BitVec 64)
  | shfree (ptr : Nat) (size : BitVec 64)

inductive Answer
  | returned (r : Return)
  | pointer (p : Option Nat)
  | byte (b : UInt8)
  | done
  deriving DecidableEq

/-- The ways a call does not come back, by the file that it ends in. -/
inductive Failure
  | pthread (fault : Pthread.Fault)
  | virt (stop : Stop)
  | share (fault : Shm.Fault)
  deriving DecidableEq

namespace State

/-- The block `ti` as `malloc` returns it. -/
def receive (ti : ThreadId) (block : Contents) (s : State) : State :=
  { s with
    system := { s.system with
      queues := { s.system.queues with
        list := Function.update s.system.queues.list ti block.list
        mu := Function.update s.system.queues.mu ti block.mu }
      tid := Function.update s.system.tid ti block.tid
      vm := { s.system.vm with
        pagetables := Function.update s.system.vm.pagetables ti block.pagetables } }
    heapInit := Function.update s.heapInit ti block.heapInit
    heapTrunkCount := Function.update s.heapTrunkCount ti block.heapTrunkCount }

/-- What the first `mm_init` leaves; it does not touch the page tables. -/
def mapped (pagetables : ThreadId → Nat → Mmpte) : Vm :=
  { mmInit with pagetables := pagetables }

/-- `my_pthread_init` sets no field of the block that is modelled here. A second call loses
the block of the thread that makes it, and what it leaves of the paging layer is `again`. -/
def myPthreadInit (main : ThreadId) (block : Contents) (again : Vm) (s : State) : State :=
  let vm := if s.gPthreadInit then again else mapped (s.receive main block).system.vm.pagetables
  let live := match s.system.queues.current with
    | none => s.system.live
    | some current => Function.update s.system.live current false
  let s := s.receive main block
  { s with
    system := { s.system with
      queues := { s.system.queues with current := some main }
      vm := vm
      live := Function.update live main true
      entered := Function.update s.system.entered main true }
    share := Shm.shinit
    gPthreadInit := true }

/-- `my_pthread_create` behind the initialisation; `alloc_thread_info` clears the block. -/
def addThread (ti : ThreadId) (block : Contents) (s : State) : Except Failure (State × Answer) :=
  let s := s.receive ti block
  match s.system.myPthreadCreate ti with
  | .error fault => .error (.pthread fault)
  | .ok (system, r) =>
      .ok ({ s with
        system := system
        heapInit := Function.update s.heapInit ti false
        heapTrunkCount := Function.update s.heapTrunkCount ti 0 }, .returned r)

def myPthreadCreate (main : ThreadId) (mainBlock : Contents) (ti : ThreadId) (block : Contents)
    (s : State) : Except Failure (State × Answer) :=
  if s.gPthreadInit then s.addThread ti block
  else (s.myPthreadInit main mainBlock mmInit).addThread ti block

def plainCall (e : Pthread.Event) (s : State) : Except Failure (State × Answer) :=
  match s.system.call e with
  | .error fault => .error (.pthread fault)
  | .ok (system, r) => .ok ({ s with system := system }, .returned r)

/-- The heap of the thread `t`. -/
def heap (t : ThreadId) (s : State) : ThreadHeap :=
  ⟨s.system.process, s.heapInit t, s.heapTrunkCount t, s.gMetadata, s.gHeapPages⟩

def setHeap (t : ThreadId) (h : ThreadHeap) (s : State) : State :=
  { s with
    system := { s.system with vm := h.process.vm }
    heapInit := Function.update s.heapInit t h.heapInit
    heapTrunkCount := Function.update s.heapTrunkCount t h.heapTrunkCount
    gMetadata := h.gMetadata
    gHeapPages := h.gHeapPages }

/-- `get_heap_init` reads `CURRENT` in front of the test for NULL. -/
def myMalloc (size : Nat) (s : State) : Except Failure (State × Answer) :=
  match s.system.queues.current with
  | none => .error (.virt .nullDereference)
  | some t =>
      match (s.heap t).myMalloc size with
      | .error stop => .error (.virt stop)
      | .ok (h, ptr) => .ok (s.setHeap t h, .pointer ptr)

/-- `my_free` reads no word of the thread but its `tid`, behind a test for NULL, and does
not use that. -/
def myFree (ptr : Nat) (s : State) : Except Failure (State × Answer) :=
  match (⟨s.system.process, false, 0, s.gMetadata, s.gHeapPages⟩ : ThreadHeap).myFree ptr with
  | .error stop => .error (.virt stop)
  | .ok h => .ok ({ s with system := { s.system with vm := h.process.vm } }, .done)

def load (address : Nat) (s : State) : Except Failure (State × Answer) :=
  match s.system.process.load address with
  | .error stop => .error (.virt stop)
  | .ok (process, byte) =>
      .ok ({ s with system := { s.system with vm := process.vm } }, .byte byte)

def store (address : Nat) (byte : UInt8) (s : State) : Except Failure (State × Answer) :=
  match s.system.process.store address byte with
  | .error stop => .error (.virt stop)
  | .ok process => .ok ({ s with system := { s.system with vm := process.vm } }, .done)

def shalloc (size : BitVec 64) (s : State) : Except Failure (State × Answer) :=
  match Shm.shalloc size s.share with
  | .error fault => .error (.share fault)
  | .ok (share, ptr) => .ok ({ s with share := share }, .pointer ptr)

def shfree (ptr : Nat) (size : BitVec 64) (s : State) : Except Failure (State × Answer) :=
  match Shm.shfree ptr size s.share with
  | .error fault => .error (.share fault)
  | .ok share => .ok ({ s with share := share }, .done)

def call (s : State) : Call → Except Failure (State × Answer)
  | .init main block again => .ok (s.myPthreadInit main block again, .done)
  | .create main mainBlock ti block => s.myPthreadCreate main mainBlock ti block
  | .plain e => s.plainCall e
  | .malloc size => s.myMalloc size
  | .free ptr => s.myFree ptr
  | .load address => s.load address
  | .store address byte => s.store address byte
  | .shalloc size => s.shalloc size
  | .shfree ptr size => s.shfree ptr size

/-- `malloc` returns blocks that no live thread has. -/
def Enabled (s : State) : Call → Prop
  | .init main _ _ => s.system.live main = false
  | .create main _ ti _ =>
      s.system.live ti = false ∧ (s.gPthreadInit = false → s.system.live main = false ∧ main ≠ ti)
  | _ => True

/-- The process starts: nothing of the window is mapped. -/
def start : State where
  system :=
    { queues :=
        { current := none
          list := fun _ => none
          mu := fun _ => 0
          gQueueReady := TailQueue.Head.empty
          gQueueWait := TailQueue.Head.empty
          gQueueSpinlock := false
          gThreadsCnt := 0 }
      tid := fun _ => 0
      gMutexTable := fun _ => ⟨false, 0⟩
      vm := { mmInit with accessible := fun _ => false }
      live := fun _ => false
      entered := fun _ => false }
  heapInit := fun _ => false
  heapTrunkCount := fun _ => 0
  gMetadata := 0
  gHeapPages := 0
  share := Shm.shinit
  gPthreadInit := false

end State

end OsDesign.Whole
