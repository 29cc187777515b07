import OsDesign.Lib.Ideals
import OsDesign.Whole.Ideal

/-!
The calls of the whole process, next to those of the ideal one. A call has the outcome that
the ideal process promises, unless `swap_out` finds the swap file full.
-/
namespace OsDesign.Whole

open Virt Pthread Heap Outcome Ideals

namespace State

/-- The process shows its threads the ideal one. -/
structure Shows (s : State) (i : Ideal) : Prop where
  wf : s.system.WellFormed
  lists : s.system.sched = i.sched
  inv : s.system.process.Inv
  own : ∀ t, s.system.live t = true → (s.heap t).Stands t (i.own t)
  shared : s.gPthreadInit = true → ∀ x, InShare x → s.system.vm.memory x = i.shared x ∧
    s.system.vm.accessible (x / pageSize) = true
  left : (maxPhysicalPages + maxSwapSlots : Int) ≤ s.system.process.left + i.granted
  share : s.share = i.share
  init : s.gPthreadInit = i.gPthreadInit
  idle : s.gPthreadInit = false → s.system.sched.threads = []

/-- `swap_out` finds the swap file full, with at most three frames and slots left. -/
def Crowded (s : State) (f : Failure) : Prop :=
  ∃ stop, f = .virt stop ∧ s.system.process.Panics 3 stop

variable {s s' : State} {i i' : Ideal} {t main ti : ThreadId} {block : Contents} {f : Failure}

theorem shows_start : start.Shows .start := by
  have empty : start.system.queues.Holds [] [] := ⟨.empty _, .empty _, .nil, Nat.zero_le _, rfl⟩
  refine ⟨wellFormed_start, System.sched_eq _ rfl empty, ?_, nofun, nofun, ?_, rfl, rfl, ?_⟩
  · exact .of_unused (fun _ => rfl) rfl (fun _ => rfl) rfl nofun nofun nofun
  · change (maxPhysicalPages + maxSwapSlots : Int) ≤ maxPhysicalPages + maxSwapSlots - 0 - 0 + 0
    omega
  · intro _
    rw [System.sched_eq _ rfl empty]
    rfl

/-- Before `my_pthread_init` there are no threads. -/
theorem Shows.live_eq (shows : s.Shows i) (unset : s.gPthreadInit = false) (t : ThreadId) :
    s.system.live t = false := by
  have none : ¬ s.system.live t = true := by
    rw [← shows.wf.live t, shows.idle unset]
    exact List.not_mem_nil
  simpa using none

/-- The first `my_pthread_init`, with a block that `malloc` returned cleared. -/
theorem Shows.myPthreadInit (shows : s.Shows i) (unset : s.gPthreadInit = false)
    (cleared : block.Cleared) (main : ThreadId) (again : Vm) :
    (s.myPthreadInit main block again).Shows (i.myPthreadInit main block) := by
  have fresh := shows.live_eq unset main
  have idle := shows.idle unset
  have none : s.system.queues.current = none := (Sched.threads_eq_nil.mp idle).1
  have live : (s.myPthreadInit main block again).system.live =
      Function.update s.system.live main true := by
    simp only [State.myPthreadInit, none, receive]
  have alone : ∀ t, (s.myPthreadInit main block again).system.live t = true → t = main := by
    intro t ht
    by_contra other
    rw [live, Function.update_of_ne other, shows.live_eq unset] at ht
    cases ht
  have vm : (s.myPthreadInit main block again).system.vm =
      mapped (Function.update s.system.vm.pagetables main block.pagetables) := by
    simp only [State.myPthreadInit, unset, receive]
    rfl
  have unused : ∀ j, (s.myPthreadInit main block again).system.vm.view main j = .unused := by
    intro j
    rw [vm, Vm.view, Mmpte.view_eq_unused]
    change (Function.update s.system.vm.pagetables main block.pagetables main j).long = 0#64
    rw [Function.update_self]
    exact cleared.pagetables j
  have inv : (s.myPthreadInit main block again).system.process.Inv := by
    have frames : (s.myPthreadInit main block again).system.process.vm =
        mapped (Function.update s.system.vm.pagetables main block.pagetables) := vm
    refine .of_unused ?_ ?_ ?_ ?_ ?_ ?_ ?_
    · exact fun i => by rw [frames]; rfl
    · rw [frames]
      rfl
    · exact fun i => by rw [frames]; rfl
    · rw [frames]
      rfl
    · intro t j ht
      rw [alone t ht]
      exact unused j
    · rintro t ⟨rfl⟩
      change (s.myPthreadInit main block again).system.live main = true
      rw [live, Function.update_self]
    · rintro t ⟨rfl⟩
      exact Function.update_self _ _ _
  refine ⟨wellFormed_myPthreadInit shows.wf fresh (.inl idle) again, ?_, inv, ?_, ?_, ?_, rfl, rfl,
    fun unset => by cases unset⟩
  · have received := sched_receive shows.wf fresh block
    rw [shows.lists] at received
    have moved : (s.myPthreadInit main block again).system.sched =
        { (s.receive main block).system.sched with
          current := some main
          live := (s.myPthreadInit main block again).system.live } := rfl
    have liveEq : s.system.live = i.sched.live := congrArg Sched.live shows.lists
    rw [moved, live, liveEq, received]
    rfl
  · intro t ht
    rw [alone t ht]
    have own : (i.myPthreadInit main block).own main = .fresh := Function.update_self _ _ _
    have init : ((s.myPthreadInit main block again).heap main).heapInit = false :=
      (Function.update_self _ _ _).trans cleared.heapInit
    rw [own]
    refine ThreadHeap.stands_fresh ⟨inv, alone t ht ▸ ht, ?_, fun j _ _ => unused j⟩ init
    exact fun j hj => absurd hj (Nat.not_lt_zero j)
  · intro _ x hx
    rw [vm]
    refine ⟨rfl, ?_⟩
    obtain ⟨hlow, hhigh⟩ := hx
    change 0x607FC000 ≤ x at hlow
    change x ≤ 0x607FFFFF at hhigh
    change isMapped (x / 4096) = true
    refine decide_eq_true ?_
    change 0x60000 ≤ x / 4096 ∧ x / 4096 ≤ 0x607FF
    omega
  · rw [Process.left]
    change _ ≤ maxPhysicalPages + maxSwapSlots
      - (s.myPthreadInit main block again).system.vm.gPfnCount
      - (s.myPthreadInit main block again).system.vm.gSwapCount + (i.granted : Int)
    rw [vm]
    change _ ≤ (maxPhysicalPages + maxSwapSlots - 0 - 0 : Int) + i.granted
    omega

/-- What a switch or the end of a thread leaves. -/
theorem Shows.leaves (shows : s.Shows i) {system : System} {sched : Sched}
    (wf : system.WellFormed) (lists : system.sched = sched)
    (leaves : s.system.process.Leaves system.process)
    (idle : s.gPthreadInit = false → sched.threads = []) :
    ({ s with system := system } : State).Shows { i with sched := sched } := by
  have left := shows.left.trans (Int.add_le_add_right leaves.left _)
  refine ⟨wf, lists, leaves.inv, ?_, ?_, left, shows.share, shows.init, ?_⟩
  · intro t ht
    obtain ⟨before, kept⟩ := leaves.threads t ht
    exact (shows.own t before).of_kept leaves.inv ht kept
  · intro initialised x hx
    obtain ⟨memory, accessible⟩ := shows.shared initialised x hx
    obtain ⟨sameMemory, sameAccess⟩ := leaves.share x hx.1
    exact ⟨sameMemory.trans memory, sameAccess.trans accessible⟩
  · intro unset
    rw [lists]
    exact idle unset

/-- The end of `CURRENT`, and the switch to the first ready thread. -/
theorem leaves_of_exit {s s' : System} (wf : s.WellFormed) (inv : s.process.Inv)
    (pages : s'.process = s.sched.pages s.process .exit) : s.process.Leaves s'.process := by
  cases hcurrent : s.queues.current with
  | none =>
      have none : s.sched.current = none := hcurrent
      rw [pages, Sched.pages, none]
      exact .refl inv
  | some current =>
      have ends : s.sched.current = some current := hcurrent
      obtain ⟨q, -, wf₁, lists⟩ := wf.retired hcurrent
      rw [Sched.pages, ends] at pages
      change s'.process = (s.sched.retired current).switched (s.process.retire current) at pages
      rw [← lists, Sched.switched] at pages
      have running : s.process.current = some current := hcurrent
      cases hready : (s.retired current q).sched.ready with
      | nil =>
          simp only [hready] at pages
          refine inv.leaves_exit (fun t ht => by cases ht) (?_ : s.process.exit none = _)
          rw [Process.exit, running, pages]
      | cons next rest =>
          simp only [hready] at pages
          have live := (wf₁.mayRun hready).1
          change Function.update s.live current false next = true at live
          have other : next ≠ current := by
            intro same
            rw [same, Function.update_self] at live
            cases live
          rw [Function.update_of_ne other] at live
          refine inv.leaves_exit ?_ (?_ : s.process.exit (some next) = _)
          · intro t ht
            obtain rfl : next = t := Option.some.inj ht
            refine ⟨live, ?_⟩
            rw [running]
            exact fun same => other (Option.some.inj same).symm
          · rw [Process.exit, running, pages]
            rw [Process.switchTo_of_none rfl]

/-- A call other than `my_pthread_create` leaves the pages of the threads that go on. -/
theorem leaves_of_call {s s' : System} (wf : s.WellFormed) (inv : s.process.Inv)
    {e : Pthread.Event} (plain : ∀ ti, e ≠ .create ti) {r : Return}
    (called : s.call e = .ok (s', r)) : s.process.Leaves s'.process := by
  have pages := wf.call_pages called
  have switched : s'.process = s.sched.switched s.process → s.process.Leaves s'.process := by
    intro same
    rw [same, Sched.switched]
    cases hready : s.sched.ready with
    | nil => exact .refl inv
    | cons next rest => exact inv.leaves_switchTo (wf.mayRun hready)
  cases e with
  | create ti => exact absurd rfl (plain ti)
  | yield | tick => exact switched pages
  | exit => exact leaves_of_exit wf inv pages
  | join h | lock h =>
      by_cases stays : (s.sched.table h).used = false ∨ (s.sched.table h).count = 0
      · rw [pages, Sched.pages, if_pos stays]
        exact .refl inv
      · rw [Sched.pages, if_neg stays] at pages
        exact switched pages
  | mutexInit | unlock _ | destroy _ =>
      rw [pages]
      exact .refl inv

/-- The calls of the scheduler. -/
theorem Shows.plainCall (shows : s.Shows i) (e : PlainEvent) (lost : Failure → Prop) :
    Meets Shows lost (s.plainCall e.1) (i.plainCall e.1) := by
  obtain ⟨e, plain⟩ := e
  have enabled : s.system.Enabled e := by
    cases e with
    | create ti => exact absurd rfl (plain ti)
    | _ => trivial
  have outcome := shows.wf.matches_call enabled
  rw [shows.lists] at outcome
  rw [State.plainCall, Ideal.plainCall]
  generalize hcall : s.system.call e = x at outcome
  generalize hlists : i.sched.call e = y at outcome
  cases outcome with
  | error fault => exact .error _
  | ok system r wf paging =>
      refine .ok _ (shows.leaves wf rfl (leaves_of_call shows.wf shows.inv plain hcall) ?_)
      intro unset
      have idle : i.sched.threads = [] := shows.lists ▸ shows.idle unset
      exact Sched.call_idle idle plain hlists

/-- `my_pthread_create` behind the initialisation. -/
theorem Shows.addThread (shows : s.Shows i) (initialised : s.gPthreadInit = true)
    (fresh : s.system.live ti = false) (block : Contents) (lost : Failure → Prop) :
    Meets Shows lost (s.addThread ti block) (i.addThread ti block) := by
  have wf := wellFormed_receive shows.wf fresh block
  have enabled : (s.receive ti block).system.Enabled (.create ti) := fresh
  have received : (s.receive ti block).system.sched = (i.receive ti block).sched := by
    rw [sched_receive shows.wf fresh block, shows.lists]
    rfl
  have outcome := wf.matches_call enabled
  rw [received] at outcome
  change System.Matches _ ((s.receive ti block).system.myPthreadCreate ti)
    ((i.receive ti block).sched.create ti) at outcome
  simp only [State.addThread, Ideal.addThread]
  generalize hcall : (s.receive ti block).system.myPthreadCreate ti = x at outcome ⊢
  generalize hlists : (i.receive ti block).sched.create ti = y at outcome ⊢
  cases outcome with
  | error fault => exact .error _
  | ok system r wf' paging =>
      have process : system.process = s.system.process.create ti := by
        rw [System.process_of_create hcall]
        simp [State.receive, System.process, Process.create, Vm.clearPagetable]
      have inv : system.process.Inv := process ▸ shows.inv.created fresh
      have vm : system.vm = s.system.vm.clearPagetable ti := congrArg Process.vm process
      have live : system.live = Function.update s.system.live ti true :=
        congrArg Process.live process
      have left : system.process.left = s.system.process.left := by
        rw [process]
        rfl
      refine .ok _ ⟨wf', rfl, inv, ?_, ?_, left ▸ shows.left, shows.share, shows.init, ?_⟩
      · intro t ht
        change system.live t = true at ht
        change ThreadHeap.Stands t _ (Function.update i.own ti .fresh t)
        by_cases new : t = ti
        · subst new
          rw [Function.update_self]
          refine ThreadHeap.stands_fresh ⟨inv, ht, ?_, ?_⟩ (Function.update_self _ _ _)
          · exact fun j hj => absurd hj (Nat.not_lt_zero j)
          · intro j _ _
            change system.vm.view t j = .unused
            rw [vm]
            exact view_clearPagetable_self s.system.vm t j
        · rw [live, Function.update_of_ne new] at ht
          rw [Function.update_of_ne new]
          have kept : ∀ j, j < maxVirtualPages →
              system.process.privateMemory t j = s.system.process.privateMemory t j := by
            intro j _
            rw [process, Process.privateMemory_create, Function.update_of_ne new]
          have stands := (shows.own t ht).of_kept inv
            (by rw [process]; simpa [Process.create, new, System.process] using ht) kept
          simpa [heap, receive, new] using stands
      · intro _ x hx
        change system.vm.memory x = _ ∧ system.vm.accessible (x / pageSize) = true
        rw [vm]
        exact shows.shared initialised x hx
      · intro unset
        change s.gPthreadInit = false at unset
        rw [initialised] at unset
        cases unset

/-- A heap call of `CURRENT`. -/
theorem Shows.setHeap (shows : s.Shows i) (current : s.system.queues.current = some t)
    {h : ThreadHeap} {o : OwnHeap} (abreast : (s.heap t).Abreast t (i.own t) h o) :
    (s.setHeap t h).Shows (i.setOwn t o) := by
  have acted := abreast.acted
  have process : (s.setHeap t h).system.process = h.process := by
    have running : h.process.current = s.system.queues.current := acted.current
    have live : h.process.live = s.system.live := acted.live
    have entered : h.process.entered = s.system.entered := acted.entered
    simp only [State.setHeap, System.process, ← running, ← live, ← entered]
  refine ⟨⟨shows.wf.holds, shows.wf.live⟩, shows.lists, process ▸ acted.inv, ?_, ?_, ?_,
    shows.share, shows.init, shows.idle⟩
  · intro u hu
    change ThreadHeap.Stands u ⟨(s.setHeap t h).system.process,
      Function.update s.heapInit t h.heapInit u,
      Function.update s.heapTrunkCount t h.heapTrunkCount u, h.gMetadata, h.gHeapPages⟩
      (Function.update i.own t o u)
    rw [process]
    by_cases same : u = t
    · subst same
      simp only [Function.update_self]
      exact abreast.stands
    · simp only [Function.update_of_ne same]
      have stands := (shows.own u hu).of_kept acted.inv (acted.live ▸ hu)
        fun j hj => acted.others u j same hu hj
      exact stands.setGlobals abreast.globals
  · intro initialised x hx
    obtain ⟨memory, accessible⟩ := shows.shared initialised x hx
    obtain ⟨sameMemory, sameAccess⟩ := acted.share x hx.1
    exact ⟨sameMemory.trans memory, sameAccess.trans accessible⟩
  · have before := shows.left
    have spent : h.process.left + o.pages = s.system.process.left + (i.own t).pages := abreast.left
    rw [process]
    change _ ≤ h.process.left + (i.granted + (o.pages - (i.own t).pages) : Nat)
    omega

theorem Shows.myMalloc (shows : s.Shows i) (size : Nat)
    {y : Except Failure (Ideal × Answer)} (promised : i.myMalloc size = some y) :
    Meets Shows s.Crowded (s.myMalloc size) y := by
  have lists : i.sched.current = s.system.queues.current := by rw [← shows.lists]; rfl
  rw [Ideal.myMalloc, lists] at promised
  rw [State.myMalloc]
  cases current : s.system.queues.current with
  | none =>
      rw [current] at promised
      cases promised
      exact .error _
  | some t =>
      simp only [current, Option.map_eq_some_iff] at promised
      obtain ⟨⟨o, ptr⟩, own, rfl⟩ := promised
      have live : s.system.live t = true := shows.inv.currentLive t current
      have served := (shows.own t live).myMalloc current own
      dsimp only
      cases hcall : (s.heap t).myMalloc size with
      | error stop =>
          have panics : s.Crowded (.virt stop) := ⟨stop, rfl, served.of_error hcall⟩
          exact .lost panics _
      | ok r =>
          obtain ⟨h, ptr'⟩ := r
          obtain ⟨same, abreast⟩ := served.of_ok hcall
          obtain rfl : ptr' = ptr := same
          exact .ok _ (shows.setHeap current abreast)

/-- While a thread runs the library is initialised. -/
theorem Shows.initialised (shows : s.Shows i) (current : s.system.queues.current = some t) :
    s.gPthreadInit = true := by
  cases unset : s.gPthreadInit with
  | true => rfl
  | false =>
      have live := shows.inv.currentLive t current
      have dead := shows.live_eq unset t
      rw [show s.system.live t = true from live] at dead
      cases dead

theorem setHeap_process (s : State) (t : ThreadId) (process : Process) :
    s.setHeap t { s.heap t with process := process } =
      { s with system := { s.system with vm := process.vm } } := by
  simp [State.setHeap, heap]

theorem Shows.myFree (shows : s.Shows i) (ptr : Nat)
    {y : Except Failure (Ideal × Answer)} (promised : i.myFree ptr = some y) :
    Meets Shows s.Crowded (s.myFree ptr) y := by
  have lists : i.sched.current = s.system.queues.current := by rw [← shows.lists]; rfl
  rw [Ideal.myFree, lists] at promised
  cases current : s.system.queues.current with
  | none =>
      rw [current] at promised
      cases promised
  | some t =>
      simp only [current, Option.map_eq_some_iff] at promised
      obtain ⟨o, own, rfl⟩ := promised
      have live : s.system.live t = true := shows.inv.currentLive t current
      have served := (shows.own t live).myFree current own
      have words := ThreadHeap.myFree_words (s.heap t) false 0 ptr
      change ThreadHeap.myFree ptr ⟨s.system.process, false, 0, s.gMetadata, s.gHeapPages⟩ = _
        at words
      rw [State.myFree, words]
      cases hcall : (s.heap t).myFree ptr with
      | error stop =>
          have panics : s.Crowded (.virt stop) :=
            ⟨stop, rfl, (served.of_error hcall).weaken (by decide)⟩
          exact .lost panics _
      | ok h =>
          have abreast := served.of_ok hcall
          have rest := ThreadHeap.myFree_rest _ hcall
          have shown := shows.setHeap current abreast
          rw [rest, setHeap_process] at shown
          exact .ok _ shown

/-- A byte of the share section is read without a page fault. -/
theorem Shows.shareLoad (shows : s.Shows i) (current : s.system.queues.current = some t)
    {address : Nat} (shared : InShare address) :
    s.load address = .ok (s, .byte (i.shared address)) := by
  obtain ⟨memory, accessible⟩ := shows.shared (shows.initialised current) address shared
  have opened : s.system.process.vm.accessible (address / pageSize) = true := accessible
  have loaded : s.system.process.load address = .ok (s.system.process, i.shared address) := by
    rw [← memory, Process.load, Process.access, if_pos opened]
    rfl
  rw [State.load, loaded]
  rfl

theorem Shows.load (shows : s.Shows i) (address : Nat)
    {y : Except Failure (Ideal × Answer)} (promised : i.load address = some y) :
    Meets Shows s.Crowded (s.load address) y := by
  have lists : i.sched.current = s.system.queues.current := by rw [← shows.lists]; rfl
  rw [Ideal.load, lists] at promised
  cases current : s.system.queues.current with
  | none =>
      rw [current] at promised
      cases promised
  | some t =>
      simp only [current] at promised
      by_cases shared : InShare address
      · rw [if_pos shared] at promised
        cases promised
        rw [shows.shareLoad current shared]
        exact .ok _ shows
      · simp only [if_neg shared, Option.map_eq_some_iff] at promised
        obtain ⟨byte, own, rfl⟩ := promised
        have live : s.system.live t = true := shows.inv.currentLive t current
        have served := (shows.own t live).load current own
        change Ensures _ _ (s.system.process.load address) at served
        rw [State.load]
        cases hcall : s.system.process.load address with
        | error stop =>
            have panics : s.Crowded (.virt stop) :=
              ⟨stop, rfl, (served.of_error hcall).weaken (by decide)⟩
            exact .lost panics _
        | ok r =>
            obtain ⟨process, byte'⟩ := r
            obtain ⟨same, abreast⟩ := served.of_ok hcall
            obtain rfl : byte' = byte := same
            have shown := shows.setHeap current abreast
            rw [setHeap_process, Ideal.setOwn_self] at shown
            exact .ok _ shown

/-- A byte of the share section is written for all threads. -/
theorem Shows.shareStore (shows : s.Shows i) (current : s.system.queues.current = some t)
    {address : Nat} (shared : InShare address) (byte : UInt8) :
    ({ s with system := { s.system with vm := { s.system.vm with
      memory := Function.update s.system.vm.memory address byte } } } : State).Shows
        { i with shared := Function.update i.shared address byte } := by
  have inv := shows.inv.stored (Function.update s.system.vm.memory address byte)
  refine ⟨⟨shows.wf.holds, shows.wf.live⟩, shows.lists, inv, ?_, ?_, shows.left, shows.share,
    shows.init, shows.idle⟩
  · intro u hu
    exact (shows.own u hu).of_kept inv hu fun j hj =>
      Process.privateMemory_shareStore s.system.process shared.1 byte hj
  · intro _ x hx
    obtain ⟨memory, accessible⟩ := shows.shared (shows.initialised current) x hx
    refine ⟨?_, accessible⟩
    by_cases same : x = address
    · simp [same]
    · simp only [Function.update_of_ne same]
      exact memory

theorem Shows.store (shows : s.Shows i) (address : Nat) (byte : UInt8)
    {y : Except Failure (Ideal × Answer)} (promised : i.store address byte = some y) :
    Meets Shows s.Crowded (s.store address byte) y := by
  have lists : i.sched.current = s.system.queues.current := by rw [← shows.lists]; rfl
  rw [Ideal.store, lists] at promised
  rw [State.store]
  cases current : s.system.queues.current with
  | none =>
      rw [current] at promised
      cases promised
  | some t =>
      simp only [current] at promised
      by_cases shared : InShare address
      · rw [if_pos shared] at promised
        cases promised
        obtain ⟨-, accessible⟩ := shows.shared (shows.initialised current) address shared
        have opened : s.system.process.vm.accessible (address / pageSize) = true := accessible
        have stored : s.system.process.store address byte = .ok { s.system.process with
            vm := { s.system.vm with
              memory := Function.update s.system.vm.memory address byte } } := by
          rw [Process.store, Process.access, if_pos opened]
          rfl
        rw [stored]
        exact .ok _ (shows.shareStore current shared byte)
      · simp only [if_neg shared, Option.map_eq_some_iff] at promised
        obtain ⟨o, own, rfl⟩ := promised
        have live : s.system.live t = true := shows.inv.currentLive t current
        have served := (shows.own t live).store current own
        change Ensures _ _ (s.system.process.store address byte) at served
        cases hcall : s.system.process.store address byte with
        | error stop =>
            have panics : s.Crowded (.virt stop) :=
              ⟨stop, rfl, (served.of_error hcall).weaken (by decide)⟩
            exact .lost panics _
        | ok process =>
            have abreast := served.of_ok hcall
            have shown := shows.setHeap current abreast
            rw [setHeap_process] at shown
            exact .ok _ shown

theorem Shows.shalloc (shows : s.Shows i) (size : BitVec 64) (lost : Failure → Prop) :
    Meets Shows lost (s.shalloc size) (i.shalloc size) := by
  rw [State.shalloc, Ideal.shalloc, shows.share]
  cases Shm.shalloc size i.share with
  | error fault => exact .error _
  | ok r =>
      exact .ok _ ⟨shows.wf, shows.lists, shows.inv, shows.own, shows.shared, shows.left, rfl,
        shows.init, shows.idle⟩

theorem Shows.shfree (shows : s.Shows i) (ptr : Nat) (size : BitVec 64)
    (lost : Failure → Prop) : Meets Shows lost (s.shfree ptr size) (i.shfree ptr size) := by
  rw [State.shfree, Ideal.shfree, shows.share]
  cases Shm.shfree ptr size i.share with
  | error fault => exact .error _
  | ok share =>
      exact .ok _ ⟨shows.wf, shows.lists, shows.inv, shows.own, shows.shared, shows.left, rfl,
        shows.init, shows.idle⟩

/-- The block of the main thread comes cleared from `malloc`. -/
def MainCleared (s : State) : Call → Prop
  | .init _ block _ => block.Cleared
  | .create _ mainBlock _ _ => s.gPthreadInit = false → mainBlock.Cleared
  | _ => True

theorem Shows.myPthreadCreate (shows : s.Shows i) {mainBlock : Contents}
    (enabled : s.Enabled (.create main mainBlock ti block))
    (cleared : s.MainCleared (.create main mainBlock ti block)) (lost : Failure → Prop) :
    Meets Shows lost (s.myPthreadCreate main mainBlock ti block)
      (i.myPthreadCreate main mainBlock ti block) := by
  rw [State.myPthreadCreate, Ideal.myPthreadCreate, ← shows.init]
  cases unset : s.gPthreadInit with
  | true => exact shows.addThread unset enabled.1 block lost
  | false =>
      have started := shows.myPthreadInit unset (cleared unset) main mmInit
      refine started.addThread rfl ?_ block lost
      have none : s.system.queues.current = none := (Sched.threads_eq_nil.mp (shows.idle unset)).1
      have apart : ti ≠ main := Ne.symm (enabled.2 unset).2
      simp only [State.myPthreadInit, none, receive, Function.update_of_ne apart]
      exact enabled.1

/-- A call has the outcome that the ideal process promises, or is lost to a full swap file. -/
theorem Shows.call (shows : s.Shows i) {c : Call} (enabled : s.Enabled c)
    (cleared : s.MainCleared c) {y : Except Failure (Ideal × Answer)}
    (promised : i.call c = some y) : Meets Shows s.Crowded (s.call c) y := by
  cases c with
  | init main block again =>
      rw [Ideal.call, ← shows.init] at promised
      cases unset : s.gPthreadInit with
      | true =>
          rw [unset] at promised
          cases promised
      | false =>
          rw [unset] at promised
          cases promised
          exact .ok _ (shows.myPthreadInit unset cleared main again)
  | create main mainBlock ti block =>
      cases promised
      exact shows.myPthreadCreate enabled cleared _
  | plain e =>
      cases promised
      exact shows.plainCall e _
  | malloc size => exact shows.myMalloc size promised
  | free ptr => exact shows.myFree ptr promised
  | load address => exact shows.load address promised
  | store address byte => exact shows.store address byte promised
  | shalloc size =>
      cases promised
      exact shows.shalloc size _
  | shfree ptr size =>
      cases promised
      exact shows.shfree ptr size _

/-- While more than three frames and slots are left, it is not lost. -/
theorem Shows.call_of_room (shows : s.Shows i) {c : Call} (enabled : s.Enabled c)
    (cleared : s.MainCleared c) (room : i.granted + 3 < maxPhysicalPages + maxSwapSlots)
    {y : Except Failure (Ideal × Answer)} (promised : i.call c = some y) :
    Meets Shows (fun _ => False) (s.call c) y := by
  refine (shows.call enabled cleared promised).of_kept ?_
  rintro f - ⟨stop, -, -, full⟩
  have left := shows.left
  omega

end State

end OsDesign.Whole
