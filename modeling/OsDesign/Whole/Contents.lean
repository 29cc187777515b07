import OsDesign.Pthread.StaleMu
import OsDesign.Whole.Served

/-!
Which contents of the blocks of `malloc` the library reads. `alloc_thread_info` clears
its block and `my_pthread_init` does not: of the block of the main thread the `tid`, the
page table and `heap_init` are read as they came.
-/
namespace OsDesign.Whole

open Virt Pthread Heap TwoRuns

/-- The words that are read before they are written are zero. -/
structure Contents.Cleared (block : Contents) : Prop where
  tid : block.tid = 0
  pagetables : ∀ j, (block.pagetables j).long = 0#64
  heapInit : block.heapInit = false

/-- The scheduler, its tids and mutexes, and the pages, frames and slots. -/
structure View where
  current : Option ThreadId
  ready : List ThreadId
  wait : List ThreadId
  tid : ThreadId → Nat
  gMutexTable : MutexTable
  vm : Vm

/-- The same call; a new thread may get a block with other contents. -/
inductive Call.Same : Call → Call → Prop
  | create (main : ThreadId) (mainBlock : Contents) (ti : ThreadId) (block block' : Contents) :
      Same (.create main mainBlock ti block) (.create main mainBlock ti block')
  | other (c : Call) (later : ∀ main block again, c ≠ .init main block again) : Same c c

namespace State

def view (s : State) : View :=
  ⟨s.system.queues.current, s.system.queues.ready, s.system.queues.wait, s.system.tid,
    s.system.gMutexTable, s.system.vm⟩

/-- `my_pthread_init` has returned to the main thread, whose block had these contents. -/
def begun (main : ThreadId) (block : Contents) : State :=
  start.myPthreadInit main block mmInit

/-- The trunk count is not told where the heap is not initialised. -/
structure Alike (s t : State) : Prop where
  system : s.system.Alike t.system
  heapInit : s.heapInit = t.heapInit
  heapTrunkCount : ∀ u, s.heapInit u = true → s.heapTrunkCount u = t.heapTrunkCount u
  gMetadata : s.gMetadata = t.gMetadata
  gHeapPages : s.gHeapPages = t.gHeapPages
  share : s.share = t.share
  left : s.gPthreadInit = true
  right : t.gPthreadInit = true

variable {s t : State} {main ti : ThreadId} {block block' : Contents}

instance (s : State) : DecidablePred s.Enabled
  | .init main _ _ => inferInstanceAs (Decidable (s.system.live main = false))
  | .create main _ ti _ => inferInstanceAs (Decidable (s.system.live ti = false ∧
      (s.gPthreadInit = false → s.system.live main = false ∧ main ≠ ti)))
  | .plain _ | .malloc _ | .free _ | .load _ | .store _ _ | .shalloc _ | .shfree _ _ =>
      inferInstanceAs (Decidable True)

theorem Alike.view_eq (alike : s.Alike t) : s.view = t.view := by
  obtain ⟨mu, lists, -⟩ := alike.system.lists
  have told : ∀ r : State, r.view = ⟨r.system.sched.current, r.system.sched.ready,
      r.system.sched.wait, r.system.sched.tid, r.system.sched.table, r.system.process.vm⟩ :=
    fun _ => rfl
  rw [told, told, lists, alike.system.process]

theorem alike_begun (cleared : block.Cleared) (cleared' : block'.Cleared) :
    (begun main block).Alike (begun main block') := by
  have wf : ∀ b : Contents, (begun main b).system.WellFormed := fun b =>
    wellFormed_myPthreadInit wellFormed_start rfl (.inl rfl) mmInit
  obtain ⟨list, mu, tid, tables, heap, count⟩ := block
  obtain ⟨list', mu', tid', tables', heap', count'⟩ := block'
  obtain rfl : tid = 0 := cleared.tid
  obtain rfl : tid' = 0 := cleared'.tid
  obtain rfl : heap = false := cleared.heapInit
  obtain rfl : heap' = false := cleared'.heapInit
  obtain rfl : tables = tables' := by
    funext j
    exact congrArg Mmpte.mk ((cleared.pagetables j).trans (cleared'.pagetables j).symm)
  refine ⟨⟨wf _, wf _, ⟨_, rfl, nofun⟩, rfl⟩, rfl, ?_, rfl, rfl, rfl, rfl, rfl⟩
  intro u initialised
  change Function.update (fun _ => false) main false u = true at initialised
  rw [Function.update_eq_self_iff.mpr rfl] at initialised
  cases initialised

/-- `memset` in `alloc_thread_info`: the contents of the block are lost. -/
theorem addThread_contents (s : State) (ti : ThreadId) (block block' : Contents) :
    s.addThread ti block = s.addThread ti block' := by
  have cleared : (s.receive ti block).system.allocThreadInfo ti =
      (s.receive ti block').system.allocThreadInfo ti := by
    simp [receive, System.allocThreadInfo, Vm.clearPagetable]
  have created : (s.receive ti block).system.myPthreadCreate ti =
      (s.receive ti block').system.myPthreadCreate ti := by
    simp only [System.myPthreadCreate, cleared]
    rfl
  simp only [addThread, created]
  cases (s.receive ti block').system.myPthreadCreate ti with
  | error fault => rfl
  | ok r => simp [receive]

theorem Alike.receive (alike : s.Alike t) (fresh : s.system.live ti = false) (block : Contents) :
    (s.receive ti block).system.Alike (t.receive ti block).system := by
  have fresh' : t.system.live ti = false := alike.system.live ▸ fresh
  refine ⟨wellFormed_receive alike.system.left fresh block,
    wellFormed_receive alike.system.right fresh' block, ?_, ?_⟩
  · obtain ⟨mu, lists, agree⟩ := alike.system.lists
    rw [sched_receive alike.system.left fresh, sched_receive alike.system.right fresh', lists]
    refine ⟨Function.update mu ti block.mu, rfl, ?_⟩
    intro u waiting
    change Function.update s.system.sched.mu ti block.mu u = Function.update mu ti block.mu u
    by_cases same : u = ti
    · rw [same, Function.update_self, Function.update_self]
    · rw [Function.update_of_ne same, Function.update_of_ne same]
      exact agree u waiting
  · have received : ∀ r : State, (r.receive ti block).system.process =
        { r.system.process with vm := { r.system.process.vm with
            pagetables := Function.update r.system.process.vm.pagetables ti block.pagetables } } :=
      fun _ => rfl
    rw [received, received, alike.system.process]

theorem Alike.addThread (alike : s.Alike t) (fresh : s.system.live ti = false)
    (block block' : Contents) : Paired Alike (s.addThread ti block) (t.addThread ti block') := by
  rw [addThread_contents t ti block' block]
  have created := (alike.receive fresh block).call (e := .create ti) fresh
  simp only [State.addThread]
  simp only [System.call] at created
  generalize (s.receive ti block).system.myPthreadCreate ti = x at created
  generalize (t.receive ti block).system.myPthreadCreate ti = y at created
  cases created with
  | error fault => exact .error (Failure.pthread fault)
  | ok r system =>
      refine .ok (Answer.returned r) (Alike.mk system ?_ ?_ alike.gMetadata alike.gHeapPages
        alike.share alike.left alike.right)
      · simp only [State.receive, alike.heapInit]
      · intro u initialised
        by_cases same : u = ti
        · subst same
          simp at initialised
        · simp only [State.receive, Function.update_of_ne same] at initialised ⊢
          exact alike.heapTrunkCount u initialised

theorem Alike.setVm (alike : s.Alike t) (vm : Vm) :
    ({ s with system := { s.system with vm := vm } } : State).Alike
      { t with system := { t.system with vm := vm } } := by
  have moved : ∀ r : System, ({ r with vm := vm } : System).process = { r.process with vm := vm } :=
    fun _ => rfl
  have process : ({ s.system with vm := vm } : System).process =
      ({ t.system with vm := vm } : System).process := by
    rw [moved, moved, alike.system.process]
  have left := alike.system.left
  have right := alike.system.right
  exact ⟨⟨⟨left.holds, left.live⟩, ⟨right.holds, right.live⟩, alike.system.lists, process⟩,
    alike.heapInit, alike.heapTrunkCount, alike.gMetadata, alike.gHeapPages, alike.share,
    alike.left, alike.right⟩

theorem Alike.plainCall (alike : s.Alike t) (e : PlainEvent) :
    Paired Alike (s.plainCall e) (t.plainCall e) := by
  obtain ⟨e, plain⟩ := e
  have enabled : s.system.Enabled e := by
    cases e with
    | create ti => exact absurd rfl (plain ti)
    | _ => trivial
  have called := alike.system.call enabled
  simp only [State.plainCall]
  generalize s.system.call e = x at called
  generalize t.system.call e = y at called
  cases called with
  | error fault => exact .error (Failure.pthread fault)
  | ok r system =>
      exact .ok (Answer.returned r) (Alike.mk system alike.heapInit alike.heapTrunkCount
        alike.gMetadata alike.gHeapPages alike.share alike.left alike.right)

/-- `my_malloc_init` sets the trunk count in front of the first read. -/
theorem myMalloc_uninitialised (h : ThreadHeap) (uninitialised : h.heapInit = false)
    (size count : Nat) :
    ({ h with heapTrunkCount := count } : ThreadHeap).myMalloc size = h.myMalloc size := by
  have started : ({ h with heapTrunkCount := count } : ThreadHeap).myMallocInit =
      h.myMallocInit := by
    simp only [ThreadHeap.myMallocInit, ThreadHeap.morePage]
    cases h.process.allocatePage with
    | error stop => rfl
    | ok first =>
        obtain ⟨process, address⟩ := first
        dsimp only
        cases process.allocatePage with
        | error stop => rfl
        | ok second => rfl
  simp only [ThreadHeap.myMalloc, started]
  simp only [uninitialised, if_true]

/-- A thread's heap is the same for the allocator. -/
theorem Alike.myMalloc_heap (alike : s.Alike t) (u : ThreadId) (size : Nat) :
    (s.heap u).myMalloc size = (t.heap u).myMalloc size := by
  have same : t.heap u = { s.heap u with heapTrunkCount := t.heapTrunkCount u } := by
    simp only [heap, alike.system.process, alike.heapInit, alike.gMetadata, alike.gHeapPages]
  rw [same]
  cases initialised : s.heapInit u with
  | false => exact (myMalloc_uninitialised (s.heap u) initialised size _).symm
  | true =>
      rw [← alike.heapTrunkCount u initialised]
      rfl

theorem Alike.setHeap (alike : s.Alike t) (u : ThreadId) (h : ThreadHeap) :
    (s.setHeap u h).Alike (t.setHeap u h) := by
  have moved := alike.setVm h.process.vm
  refine ⟨moved.system, ?_, ?_, rfl, rfl, alike.share, alike.left, alike.right⟩
  · simp only [State.setHeap, alike.heapInit]
  · intro v initialised
    simp only [State.setHeap] at initialised ⊢
    by_cases same : v = u
    · rw [same, Function.update_self, Function.update_self]
    · rw [Function.update_of_ne same] at initialised
      rw [Function.update_of_ne same, Function.update_of_ne same]
      exact alike.heapTrunkCount v initialised

theorem Alike.current (alike : s.Alike t) :
    s.system.queues.current = t.system.queues.current :=
  congrArg Process.current alike.system.process

theorem Alike.myMalloc (alike : s.Alike t) (size : Nat) :
    Paired Alike (s.myMalloc size) (t.myMalloc size) := by
  simp only [State.myMalloc, ← alike.current]
  cases s.system.queues.current with
  | none => exact .error (Failure.virt .nullDereference)
  | some u =>
      simp only [← alike.myMalloc_heap u size]
      cases (s.heap u).myMalloc size with
      | error stop => exact .error (Failure.virt stop)
      | ok r => exact .ok (Answer.pointer r.2) (alike.setHeap u r.1)

/-- A call that works on the paging layer alone. -/
theorem Alike.myFree (alike : s.Alike t) (ptr : Nat) :
    Paired Alike (s.myFree ptr) (t.myFree ptr) := by
  have same : (⟨s.system.process, false, 0, s.gMetadata, s.gHeapPages⟩ : ThreadHeap).myFree ptr =
      (⟨t.system.process, false, 0, t.gMetadata, t.gHeapPages⟩ : ThreadHeap).myFree ptr := by
    rw [alike.system.process, alike.gMetadata, alike.gHeapPages]
  simp only [State.myFree, same]
  cases ThreadHeap.myFree ptr _ with
  | error stop => exact .error (Failure.virt stop)
  | ok h => exact .ok Answer.done (alike.setVm h.process.vm)

theorem Alike.load (alike : s.Alike t) (address : Nat) :
    Paired Alike (s.load address) (t.load address) := by
  simp only [State.load, ← alike.system.process]
  cases s.system.process.load address with
  | error stop => exact .error (Failure.virt stop)
  | ok r => exact .ok (Answer.byte r.2) (alike.setVm r.1.vm)

theorem Alike.store (alike : s.Alike t) (address : Nat) (byte : UInt8) :
    Paired Alike (s.store address byte) (t.store address byte) := by
  simp only [State.store, ← alike.system.process]
  cases s.system.process.store address byte with
  | error stop => exact .error (Failure.virt stop)
  | ok process => exact .ok Answer.done (alike.setVm process.vm)

theorem Alike.setShare (alike : s.Alike t) (share : Shm.Charmap) :
    ({ s with share := share } : State).Alike { t with share := share } :=
  ⟨alike.system, alike.heapInit, alike.heapTrunkCount, alike.gMetadata, alike.gHeapPages, rfl,
    alike.left, alike.right⟩

theorem Alike.shalloc (alike : s.Alike t) (size : BitVec 64) :
    Paired Alike (s.shalloc size) (t.shalloc size) := by
  simp only [State.shalloc, ← alike.share]
  cases Shm.shalloc size s.share with
  | error fault => exact .error (Failure.share fault)
  | ok r => exact .ok (Answer.pointer r.2) (alike.setShare r.1)

theorem Alike.shfree (alike : s.Alike t) (ptr : Nat) (size : BitVec 64) :
    Paired Alike (s.shfree ptr size) (t.shfree ptr size) := by
  simp only [State.shfree, ← alike.share]
  cases Shm.shfree ptr size s.share with
  | error fault => exact .error (Failure.share fault)
  | ok share => exact .ok Answer.done (alike.setShare share)

/-- No call tells the states apart. -/
theorem Alike.call (alike : s.Alike t) {c d : Call} (same : c.Same d) (enabled : s.Enabled c) :
    Paired Alike (s.call c) (t.call d) := by
  cases same with
  | create main mainBlock ti block block' =>
      simp only [State.call, State.myPthreadCreate, alike.left, alike.right, if_true]
      exact alike.addThread enabled.1 block block'
  | other c later =>
      cases c with
      | init main block again => exact absurd rfl (later main block again)
      | create main mainBlock ti block =>
          simp only [State.call, State.myPthreadCreate, alike.left, alike.right, if_true]
          exact alike.addThread enabled.1 block block
      | plain e => exact alike.plainCall e
      | malloc size => exact alike.myMalloc size
      | free ptr => exact alike.myFree ptr
      | load address => exact alike.load address
      | store address byte => exact alike.store address byte
      | shalloc size => exact alike.shalloc size
      | shfree ptr size => exact alike.shfree ptr size

theorem Alike.enabled_iff (alike : s.Alike t) {c d : Call} (same : c.Same d) :
    s.Enabled c ↔ t.Enabled d := by
  have live := alike.system.live
  cases same with
  | create main mainBlock ti block block' =>
      simp only [Enabled, live, alike.left, alike.right]
  | other c later =>
      cases c with
      | init main block again => exact absurd rfl (later main block again)
      | create main mainBlock ti block => simp only [Enabled, live, alike.left, alike.right]
      | _ => exact Iff.rfl

end State

/-- What a run shows behind `my_pthread_init`. -/
def shown (main : ThreadId) (block : Contents) (cs : List Call) :
    List (Except Failure (Answer × View)) :=
  trace State.Enabled State.call State.view (State.begun main block) cs

theorem shown_eq (main : ThreadId) {block block' : Contents} (cleared : block.Cleared)
    (cleared' : block'.Cleared) {cs cs' : List Call} (same : List.Forall₂ Call.Same cs cs') :
    shown main block cs = shown main block' cs' :=
  trace_eq (fun _ _ alike => alike.view_eq) (fun _ _ _ _ alike same => alike.enabled_iff same)
    (fun _ _ _ _ alike same enabled => alike.call same enabled)
    (State.alike_begun cleared cleared') same

/-- The main thread has tid 0, no page and no heap. -/
structure State.StartsEmpty (s : State) (main : ThreadId) : Prop where
  tid : s.system.tid main = 0
  pages : ∀ j, s.system.vm.view main j = .unused
  heapInit : s.heapInit main = false

theorem State.startsEmpty_begun (main : ThreadId) {block : Contents} (cleared : block.Cleared) :
    (State.begun main block).StartsEmpty main := by
  have tid : (State.begun main block).system.tid main = block.tid := Function.update_self _ _ _
  have tables : (State.begun main block).system.vm.pagetables main = block.pagetables :=
    Function.update_self _ _ _
  have heap : (State.begun main block).heapInit main = block.heapInit := Function.update_self _ _ _
  refine ⟨tid.trans cleared.tid, ?_, heap.trans cleared.heapInit⟩
  intro j
  rw [Vm.view, tables, Mmpte.view_eq_unused]
  exact cleared.pagetables j

/-- Two runs with other contents of the blocks show the same, if the words of the main
thread's block that are read before they are written are zero in both. -/
theorem contents_not_shown (main : ThreadId) {block block' : Contents} (cleared : block.Cleared)
    (cleared' : block'.Cleared) {cs cs' : List Call} (same : List.Forall₂ Call.Same cs cs') :
    shown main block cs = shown main block' cs' ∧ (State.begun main block).StartsEmpty main ∧
      (State.begun main block').StartsEmpty main :=
  ⟨shown_eq main cleared cleared' same, State.startsEmpty_begun main cleared,
    State.startsEmpty_begun main cleared'⟩

/-- A block with the words 5, 6 and 7 where nothing reads them. -/
def littered : Contents := ⟨some 5, 6, 0, fun _ => .zero, false, 7⟩

def zeroed : Contents := ⟨none, 0, 0, fun _ => .zero, false, 0⟩

theorem zeroed_cleared : zeroed.Cleared := ⟨rfl, fun _ => rfl, rfl⟩

/-- The main thread creates a thread, calls `my_malloc` and yields. -/
theorem contents_not_shown_littered :
    shown 0 zeroed [.create 0 zeroed 1 zeroed, .malloc 32, .plain ⟨.yield, nofun⟩] =
        shown 0 littered [.create 0 zeroed 1 littered, .malloc 32, .plain ⟨.yield, nofun⟩] ∧
      (State.begun 0 zeroed).StartsEmpty 0 ∧ (State.begun 0 littered).StartsEmpty 0 := by
  refine contents_not_shown 0 ⟨rfl, fun _ => rfl, rfl⟩ ⟨rfl, fun _ => rfl, rfl⟩ ?_
  exact .cons (.create 0 zeroed 1 zeroed littered) (.cons (.other _ nofun)
    (.cons (.other _ nofun) .nil))

/-- The first `my_malloc` of the main thread, whose block has a nonzero `heap_init`, takes
one page and reads its record at NULL. -/
theorem contents_shown : ¬ ∀ main block block' cs cs', List.Forall₂ Call.Same cs cs' →
    shown main block cs = shown main block' cs' := by
  intro always
  have same := always 0 zeroed { zeroed with heapInit := true } [.malloc 32] [.malloc 32]
    (.cons (.other _ nofun) .nil)
  have served : (shown 0 zeroed [.malloc 32]).map Except.isOk = [true] := by
    decide +kernel
  have failed : (shown 0 { zeroed with heapInit := true } [.malloc 32]).map Except.isOk =
      [false] := by
    decide +kernel
  rw [same, failed] at served
  cases served

end OsDesign.Whole
