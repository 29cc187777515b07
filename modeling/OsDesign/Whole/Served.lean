import OsDesign.Heap.Pointers
import OsDesign.Pthread.NullCalls
import OsDesign.Whole.State

/-!
The calls that the library serves: all of them behind `my_pthread_init`, and before it
those that do not read `CURRENT`. The accessors of `CURRENT` have no test for NULL.
-/
namespace OsDesign.Whole

open Virt Pthread Heap Outcome

/-- The failure is a read or write through NULL. -/
def Failure.IsNull : Failure → Prop
  | .pthread fault => fault = .nullDereference
  | .virt stop => stop = .nullDereference
  | .share _ => False

namespace State

variable {s s' : State} {ti main : ThreadId} {block : Contents} {a : Answer}

/-- The call ends at NULL. -/
def Dereferences (s : State) (c : Call) : Prop :=
  ∃ failure, s.call c = .error failure ∧ failure.IsNull

/-- The library is initialised, or the call neither is `my_malloc` nor waits. -/
def Serves (s : State) : Call → Prop
  | .malloc _ => s.gPthreadInit = true
  | .plain e => s.gPthreadInit = true ∨
      ∀ h, e.1 = .join h ∨ e.1 = .lock h → ¬ s.system.gMutexTable.Contended h
  | _ => True

theorem holds_receive (wf : s.system.WellFormed) (fresh : s.system.live ti = false)
    (block : Contents) : (s.receive ti block).system.queues.Holds s.system.queues.ready
      s.system.queues.wait :=
  (wf.holds.setList (wf.notMem_threads fresh) block.list).setMu _

theorem sched_receive (wf : s.system.WellFormed) (fresh : s.system.live ti = false)
    (block : Contents) : (s.receive ti block).system.sched =
      { s.system.sched with
        mu := Function.update s.system.sched.mu ti block.mu
        tid := Function.update s.system.sched.tid ti block.tid } :=
  System.sched_eq _ rfl (holds_receive wf fresh block)

/-- A block that nobody has is on no queue. -/
theorem wellFormed_receive (wf : s.system.WellFormed) (fresh : s.system.live ti = false)
    (block : Contents) : (s.receive ti block).system.WellFormed :=
  .of_holds (holds_receive wf fresh block) wf.live

theorem wellFormed_start : start.system.WellFormed := by
  have empty : start.system.queues.Holds [] [] := ⟨.empty _, .empty _, .nil, Nat.zero_le _, rfl⟩
  exact .of_holds empty fun t => ⟨nofun, nofun⟩

theorem owned_mapped (pagetables : ThreadId → Nat → Mmpte) : Owned (mapped pagetables) := nofun

/-- The threads that wait for the processor or for an entry are live without `CURRENT`. -/
theorem mem_queues_iff (wf : s.system.WellFormed) (t : ThreadId) :
    t ∈ s.system.queues.ready ++ s.system.queues.wait ↔
      (match s.system.queues.current with
        | none => s.system.live
        | some current => Function.update s.system.live current false) t = true := by
  have live := wf.live t
  have nodup := wf.holds.nodup
  simp only [Sched.threads, System.sched] at live
  simp only [Queues.members] at nodup
  cases current : s.system.queues.current with
  | none =>
      rw [current] at live
      exact live
  | some c =>
      rw [current] at live nodup
      simp only [Option.toList_some, List.singleton_append, List.mem_cons] at live
      have apart : c ∉ s.system.queues.ready ++ s.system.queues.wait := (List.nodup_cons.mp nodup).1
      by_cases same : t = c
      · subst same
        simp only [Function.update_self]
        exact ⟨fun h => absurd h apart, fun h => by cases h⟩
      · simp only [Function.update_of_ne same]
        exact ⟨fun h => live.mp (.inr h), fun h => (live.mpr h).resolve_left same⟩

/-- `my_pthread_init` when there are no threads, or by `CURRENT`. -/
theorem wellFormed_myPthreadInit (wf : s.system.WellFormed) (fresh : s.system.live main = false)
    (known : s.system.sched.threads = [] ∨ s.system.queues.current ≠ none) (again : Vm) :
    (s.myPthreadInit main block again).system.WellFormed := by
  have received := holds_receive wf fresh block
  have notMem : main ∉ s.system.queues.ready ++ s.system.queues.wait := fun queued =>
    wf.notMem_threads fresh (List.mem_append_right _ queued)
  have few : (main :: (s.system.queues.ready ++ s.system.queues.wait)).length ≤
      s.system.queues.bound := by
    rcases known with idle | running
    · obtain ⟨-, ready, wait⟩ := Sched.threads_eq_nil.mp idle
      change s.system.queues.ready = [] at ready
      change s.system.queues.wait = [] at wait
      simp [ready, wait, Queues.bound]
    · obtain ⟨c, current⟩ := Option.ne_none_iff_exists'.mp running
      have few := wf.holds.few
      rw [Queues.members, current] at few
      exact few
  have rest : (s.system.queues.ready ++ s.system.queues.wait).Nodup :=
    (List.nodup_append.mp wf.holds.nodup).2.1
  have holds : (s.myPthreadInit main block again).system.queues.Holds s.system.queues.ready
      s.system.queues.wait :=
    ⟨received.ready, received.wait, List.nodup_cons.mpr ⟨notMem, rest⟩, few,
      wf.holds.unlocked⟩
  refine .of_holds holds ?_
  intro t
  change t ∈ main :: (s.system.queues.ready ++ s.system.queues.wait) ↔
    Function.update (match s.system.queues.current with
      | none => s.system.live
      | some current => Function.update s.system.live current false) main true t = true
  by_cases same : t = main
  · subst same
    simp
  · rw [List.mem_cons, Function.update_of_ne same, or_iff_right same]
    exact mem_queues_iff wf t

/-- The invariant of the library. -/
structure Sound (s : State) : Prop where
  wf : s.system.WellFormed
  owned : Owned s.system.vm
  idle : s.gPthreadInit = false → s.system.sched.threads = []

theorem Sound.current_eq (sound : s.Sound) (unset : s.gPthreadInit = false) :
    s.system.queues.current = none :=
  (Sched.threads_eq_nil.mp (sound.idle unset)).1

theorem Sound.init (sound : s.Sound) (fresh : s.system.live main = false)
    (known : s.gPthreadInit = true → s.system.queues.current ≠ none) {again : Vm}
    (owned : Owned again) : (s.myPthreadInit main block again).Sound := by
  have wf : (s.myPthreadInit main block again).system.WellFormed := by
    refine wellFormed_myPthreadInit sound.wf fresh ?_ again
    cases hinit : s.gPthreadInit with
    | false => exact .inl (sound.idle hinit)
    | true => exact .inr (known hinit)
  refine ⟨wf, ?_, nofun⟩
  change Owned (if s.gPthreadInit then again else mapped _)
  split
  · exact owned
  · exact owned_mapped _

/-- A new thread, in the initialised library. -/
theorem Sound.addThread (sound : s.Sound) (initialised : s.gPthreadInit = true)
    (fresh : s.system.live ti = false) (block : Contents) :
    Ensures (fun failure => ¬ failure.IsNull) (fun r => r.1.Sound ∧ r.1.gPthreadInit = true)
      (s.addThread ti block) := by
  have wf := wellFormed_receive sound.wf fresh block
  have enabled : (s.receive ti block).system.Enabled (.create ti) := fresh
  simp only [State.addThread]
  split
  · rename_i fault failed
    refine .error fun null => ?_
    obtain rfl : fault = .nullDereference := null
    have failed' := (wf.call_error_iff enabled _).mp failed
    have ended := (Sched.call_null_iff _ _).mp failed'
    simp at ended
  · rename_i system r created
    obtain ⟨-, wf', paging⟩ := wf.call_ok enabled created
    refine .ok ⟨⟨wf', ?_, ?_⟩, initialised⟩
    · have owned : Owned (s.receive ti block).system.vm := sound.owned.congr rfl
      exact paging.owned owned
    · intro unset
      change s.gPthreadInit = false at unset
      rw [initialised] at unset
      cases unset

theorem Sound.withVm (sound : s.Sound) {vm : Vm} (owned : Owned vm) :
    ({ s with system := { s.system with vm := vm } } : State).Sound :=
  ⟨⟨sound.wf.holds, sound.wf.live⟩, owned, sound.idle⟩

/-- What a call may be before the initialisation. -/
def Early : Call → Prop
  | .plain e => e.1 ≠ .exit
  | .free _ | .load _ | .store _ _ => False
  | _ => True

theorem Sound.plainCall (sound : s.Sound) (e : PlainEvent)
    (known : s.gPthreadInit = true → s.system.queues.current ≠ none)
    (early : s.gPthreadInit = false → e.1 ≠ .exit) :
    Ensures (fun failure => failure.IsNull → ¬ s.Serves (.plain e))
      (fun r => r.1.Sound ∧ r.1.gPthreadInit = s.gPthreadInit) (s.call (.plain e)) := by
  obtain ⟨e, plain⟩ := e
  have enabled : s.system.Enabled e := by
    cases e with
    | create ti => exact absurd rfl (plain ti)
    | _ => trivial
  simp only [State.call, State.plainCall]
  split
  · rename_i fault failed
    refine .error ?_
    rintro (rfl : fault = .nullDereference) serves
    have lists := (sound.wf.call_error_iff enabled _).mp failed
    obtain ⟨none, hexit | ⟨h, asks, contended⟩⟩ := (Sched.call_null_iff _ _).mp lists
    · cases unset : s.gPthreadInit with
      | false => exact early unset hexit
      | true => exact known unset none
    · rcases serves with initialised | free
      · exact known initialised none
      · exact free h asks contended
  · rename_i system r called
    obtain ⟨lists, wf, paging⟩ := sound.wf.call_ok enabled called
    exact .ok ⟨⟨wf, paging.owned sound.owned, fun unset =>
      Sched.call_idle (sound.idle unset) plain lists⟩, rfl⟩

theorem Sound.myMalloc (sound : s.Sound) (size : Nat)
    (known : s.gPthreadInit = true → s.system.queues.current ≠ none) :
    Ensures (fun failure => failure.IsNull → ¬ s.Serves (.malloc size))
      (fun r => r.1.Sound ∧ r.1.gPthreadInit = s.gPthreadInit) (s.call (.malloc size)) := by
  simp only [State.call, State.myMalloc]
  split
  · rename_i none
    exact .error fun _ initialised => known initialised none
  · rename_i t current
    have running : (s.heap t).Running t := ⟨sound.owned, current⟩
    have served := running.myMalloc size
    split
    · exact .error fun null => absurd null (served.of_error ‹_›)
    · rename_i h ptr hserved
      have running' : h.Running t := served.of_ok hserved
      exact .ok ⟨⟨(sound.withVm running'.owned).wf, running'.owned, sound.idle⟩, rfl⟩

theorem Sound.myFree (sound : s.Sound) (ptr : Nat) {t : ThreadId}
    (current : s.system.queues.current = some t) :
    Ensures (fun failure => ¬ failure.IsNull)
      (fun r => r.1.Sound ∧ r.1.gPthreadInit = s.gPthreadInit) (s.call (.free ptr)) := by
  have running : (⟨s.system.process, false, 0, s.gMetadata, s.gHeapPages⟩ : ThreadHeap).Running t :=
    ⟨sound.owned, current⟩
  have freed := running.myFree ptr
  simp only [State.call, State.myFree]
  split
  · exact .error (freed.of_error ‹_›)
  · exact .ok ⟨sound.withVm (freed.of_ok ‹_›).owned, rfl⟩

theorem Sound.load (sound : s.Sound) (address : Nat) {t : ThreadId}
    (current : s.system.queues.current = some t) :
    Ensures (fun failure => ¬ failure.IsNull)
      (fun r => r.1.Sound ∧ r.1.gPthreadInit = s.gPthreadInit) (s.call (.load address)) := by
  have accessed := Process.access_ensures (p := s.system.process) sound.owned current address
  simp only [State.call, State.load, Process.load]
  cases taken : s.system.process.access address with
  | error stop => exact accessed.of_error taken
  | ok process => exact ⟨sound.withVm (accessed.of_ok taken).1, rfl⟩

theorem Sound.store (sound : s.Sound) (address : Nat) (byte : UInt8) {t : ThreadId}
    (current : s.system.queues.current = some t) :
    Ensures (fun failure => ¬ failure.IsNull)
      (fun r => r.1.Sound ∧ r.1.gPthreadInit = s.gPthreadInit) (s.call (.store address byte)) := by
  have accessed := Process.access_ensures (p := s.system.process) sound.owned current address
  simp only [State.call, State.store, Process.store]
  cases taken : s.system.process.access address with
  | error stop => exact accessed.of_error taken
  | ok process => exact ⟨sound.withVm ((accessed.of_ok taken).1.congr rfl), rfl⟩

/-- A call that never ends at NULL, among those that may. -/
theorem ensures_serves {c : Call} {P : State × Answer → Prop} {x : Except Failure (State × Answer)}
    (h : Ensures (fun failure => ¬ failure.IsNull) P x) :
    Ensures (fun failure => failure.IsNull → ¬ s.Serves c) P x :=
  h.weaken fun _ notNull null => absurd null notNull

def initialises : Call → Bool
  | .init _ _ _ | .create _ _ _ _ => true
  | _ => false

/-- Every call keeps the invariant, and ends at NULL only if the library does not serve it. -/
theorem Sound.call (sound : s.Sound) {c : Call} (enabled : s.Enabled c)
    (known : s.gPthreadInit = true → s.system.queues.current ≠ none)
    (early : s.gPthreadInit = false → Early c)
    (again : ∀ main block vm, c = .init main block vm → Owned vm) :
    Ensures (fun failure => failure.IsNull → ¬ s.Serves c)
      (fun r => r.1.Sound ∧ r.1.gPthreadInit = (s.gPthreadInit || initialises c)) (s.call c) := by
  have running : ¬ Early c → ∃ t, s.system.queues.current = some t := by
    intro late
    cases initialised : s.gPthreadInit with
    | false => exact absurd (early initialised) late
    | true => exact Option.ne_none_iff_exists'.mp (known initialised)
  have served : initialises c = false → ∀ {x : Except Failure (State × Answer)},
      Ensures (fun failure => failure.IsNull → ¬ s.Serves c)
        (fun r => r.1.Sound ∧ r.1.gPthreadInit = s.gPthreadInit) x →
      Ensures (fun failure => failure.IsNull → ¬ s.Serves c)
        (fun r => r.1.Sound ∧ r.1.gPthreadInit = (s.gPthreadInit || initialises c)) x := by
    intro later x h
    refine h.mono fun r hr => ⟨hr.1, ?_⟩
    rw [later, Bool.or_false]
    exact hr.2
  cases c with
  | init main block vm =>
      refine ⟨sound.init enabled known (again main block vm rfl), ?_⟩
      simp [initialises, State.myPthreadInit]
  | create main mainBlock ti block =>
      have created : Ensures (fun failure => ¬ failure.IsNull)
          (fun r => r.1.Sound ∧ r.1.gPthreadInit = true)
          (s.call (.create main mainBlock ti block)) := by
        simp only [State.call, State.myPthreadCreate]
        cases unset : s.gPthreadInit with
        | true => exact sound.addThread unset enabled.1 block
        | false =>
            obtain ⟨unknown, apart⟩ := enabled.2 unset
            have first : (s.myPthreadInit main mainBlock mmInit).Sound :=
              sound.init unknown known nofun
            refine first.addThread rfl ?_ block
            simp only [State.myPthreadInit, sound.current_eq unset,
              Function.update_of_ne (Ne.symm apart)]
            exact enabled.1
      refine ensures_serves (created.mono fun r hr => ⟨hr.1, ?_⟩)
      rw [hr.2, initialises, Bool.or_true]
  | plain e => exact served rfl (sound.plainCall e known early)
  | malloc size => exact served rfl (sound.myMalloc size known)
  | free ptr =>
      obtain ⟨t, current⟩ := running id
      exact served rfl (ensures_serves (sound.myFree ptr current))
  | load address =>
      obtain ⟨t, current⟩ := running id
      exact served rfl (ensures_serves (sound.load address current))
  | store address byte =>
      obtain ⟨t, current⟩ := running id
      exact served rfl (ensures_serves (sound.store address byte current))
  | shalloc size =>
      refine served rfl ?_
      simp only [State.call, State.shalloc]
      split
      · exact .error nofun
      · exact .ok ⟨⟨sound.wf, sound.owned, sound.idle⟩, rfl⟩
  | shfree ptr size =>
      refine served rfl ?_
      simp only [State.call, State.shfree]
      split
      · exact .error nofun
      · exact .ok ⟨⟨sound.wf, sound.owned, sound.idle⟩, rfl⟩

/-- Before the initialisation a call that is not served ends at NULL. -/
theorem Sound.dereferences (sound : s.Sound) {c : Call} (refused : ¬ s.Serves c) :
    s.Dereferences c := by
  cases c with
  | malloc size =>
      have none := sound.current_eq (Bool.eq_false_iff.mpr refused)
      refine ⟨.virt .nullDereference, ?_, rfl⟩
      simp only [State.call, State.myMalloc, none]
  | plain e =>
      simp only [Serves, not_or, not_forall, not_not] at refused
      obtain ⟨unset, h, asks, contended⟩ := refused
      have none := sound.current_eq (Bool.eq_false_iff.mpr unset)
      have lists : s.system.sched.call e.1 = .error .nullDereference :=
        (Sched.call_null_iff _ _).mpr ⟨none, .inr ⟨h, asks, contended⟩⟩
      have enabled : s.system.Enabled e.1 := by
        rcases asks with asks | asks <;> rw [asks] <;> trivial
      have failed := (sound.wf.call_error_iff enabled _).mpr lists
      refine ⟨.pthread .nullDereference, ?_, rfl⟩
      simp only [State.call, State.plainCall, failed]
  | _ => exact absurd trivial refused

end State

end OsDesign.Whole
