import OsDesign.Code.HeapReclaim
import OsDesign.Code.Lists

/-!
The library of `code/` and the later one side by side, under the same calls. The later
version has a spinlock around its queues, its own memory and zeroed blocks; the threads it
runs, the order it runs them in and what it answers are those of the earlier one, but for
the lock that waits, which gives back nothing in `code/`, and for the end of a thread
before the first `my_malloc`, which crashes there.
-/
namespace OsDesign.Code

open Virt Pthread

structure Versions where
  earlier : Program
  later : System

/-- The same call in both, or a use of the heap of `code/`. -/
inductive VersionsEvent
  | call (e : Pthread.Event)
  | use (c : HeapUse)

namespace Versions

variable {v v' : Versions} {u : Unspecified} {e : Pthread.Event} {main : ThreadId}

/-- Both calls come back. -/
def Step (v : Versions) : VersionsEvent → Versions → Prop
  | .call e, v' => (∃ u r, v.earlier.call u e = .ok (v'.earlier, r)) ∧
      ∃ r, v.later.call e = .ok (v'.later, r)
  | .use c, v' => v.earlier.Step (.use c) v'.earlier ∧ v'.later = v.later

def Enabled (v : Versions) : VersionsEvent → Prop
  | .call e => v.later.Enabled e
  | .use _ => True

/-- Both after `my_pthread_init`, with the same unset `tid` words. -/
structure Init (main : ThreadId) (v : Versions) : Prop where
  earlier : v.earlier.Init main
  later : v.later.Init main
  tid : v.earlier.library.tid = v.later.tid

/-- The threads, the order of both queues, the handles and the table of mutexes. -/
structure SameLists (v : Versions) : Prop where
  current : v.earlier.library.queues.current = v.later.queues.current
  ready : v.earlier.library.queues.ready = v.later.queues.ready
  wait : v.earlier.library.queues.wait = v.later.queues.wait
  tid : v.earlier.library.tid = v.later.tid
  gMutexTable : v.earlier.library.gMutexTable = v.later.gMutexTable
  live : v.earlier.library.live = v.later.live

/-- One call made in both: it fails alike, or comes back with the same lists behind it and
the same answer, where no lock has waited. Without a pool the end of a thread fails in the
earlier version. -/
inductive Agree (v : Versions) (u : Unspecified) (e : Pthread.Event) :
    Except Fault (Program × Return) → Except Fault (System × Return) → Prop
  | error (fault : Fault) : Agree v u e (.error fault) (.error fault)
  | ok {p : Program} {s : System} (r : Return) (same : SameLists ⟨p, s⟩)
      (mapped : e = .exit → v.earlier.heap.mapping ≠ none) :
      Agree v u e (.ok (p, Library.answer u v.later.sched e r)) (.ok (s, r))
  | unmapped {s : System} (r : Return) (exits : e = .exit)
      (none : v.earlier.heap.mapping = none) :
      Agree v u e (.error .nullDereference) (.ok (s, r))

/-- Two well-formed states, alike but for `mu` words of threads that do not wait. -/
structure Inv (v : Versions) : Prop where
  earlier : v.earlier.library.WellFormed
  later : v.later.WellFormed
  lists : v.later.sched.Alike v.earlier.library.sched

theorem Inv.sameLists (inv : v.Inv) : v.SameLists := by
  obtain ⟨mu, same, -⟩ := inv.lists
  exact ⟨congrArg Sched.current same, congrArg Sched.ready same, congrArg Sched.wait same,
    congrArg Sched.tid same, congrArg Sched.table same, congrArg Sched.live same⟩

theorem Inv.enabled (inv : v.Inv) (enabled : v.later.Enabled e) :
    v.earlier.library.Enabled e := by
  cases e with
  | create ti =>
      have free : v.later.live ti = false := enabled
      exact (congrFun inv.sameLists.live ti).trans free
  | _ => trivial

theorem Init.inv (init : v.Init main) : v.Inv := by
  have wf : v.earlier.library.WellFormed := .reachable (.start init.earlier.1)
  have wf' := init.later.wellFormed
  have hready : v.earlier.library.queues.ready = v.later.queues.ready := by
    simp only [Queues.ready, Queues.bound, init.earlier.1.ready, init.later.ready]
    rfl
  have hwait : v.earlier.library.queues.wait = [] := by
    simp only [Queues.wait, init.earlier.1.wait]
    rfl
  have hwait' : v.later.queues.wait = [] := by
    simp only [Queues.wait, init.later.wait]
    rfl
  refine ⟨wf, wf', v.earlier.library.queues.mu, ?_, ?_⟩
  · simp only [Library.sched, System.sched, init.earlier.1.current, init.later.current, hready,
      hwait, hwait', init.tid, init.earlier.1.gMutexTable, init.later.gMutexTable,
      init.earlier.1.live, init.later.live]
  · intro t ht
    change t ∈ v.later.queues.wait at ht
    rw [hwait'] at ht
    cases ht

/-- One call of each, through the call on the lists. -/
theorem Inv.calls (inv : v.Inv) (enabled : v.later.Enabled e) (u : Unspecified) :
    (∃ fault, v.earlier.library.call u e = .error fault ∧ v.later.call e = .error fault) ∨
      ∃ l s r, v.earlier.library.call u e = .ok (l, Library.answer u v.later.sched e r) ∧
        v.later.call e = .ok (s, r) ∧ ∀ heap, Inv ⟨⟨l, heap⟩, s⟩ := by
  have left := inv.earlier.follows_call (u := u) (inv.enabled enabled)
  have right := inv.later.matches_call enabled
  have lists := inv.lists.call e
  generalize v.earlier.library.call u e = x at left ⊢
  generalize v.later.call e = y at right ⊢
  generalize v.earlier.library.sched.call e = a at left lists
  generalize v.later.sched.call e = b at right lists
  cases left with
  | error fault =>
      cases lists with
      | error _ =>
          cases right with
          | error _ => exact .inl ⟨fault, rfl, rfl⟩
  | @ok l a' r wf alike =>
      cases lists with
      | ok _ related =>
          cases right with
          | ok s' _ wf' _ =>
              rw [Library.answer_of_table inv.lists.table]
              exact .inr ⟨l, s', r, rfl, rfl,
                fun _ => ⟨wf, wf', Library.alike_trans related alike⟩⟩

/-- The end of a thread, with the heap that it reclaims. -/
theorem Inv.exits (inv : v.Inv) (u : Unspecified) :
    v.Agree u .exit (v.earlier.call u .exit) (v.later.call .exit) ∧
      ∀ p r s r', v.earlier.call u .exit = .ok (p, r) → v.later.call .exit = .ok (s, r') →
        Inv ⟨p, s⟩ := by
  have outcome := inv.calls (e := .exit) trivial u
  cases current : v.earlier.library.queues.current with
  | none =>
      have current' : v.later.queues.current = none := inv.sameLists.current ▸ current
      have fails : v.earlier.call u .exit = .error .nullDereference := by
        simp only [Program.call, current]
      have fails' : v.later.call .exit = .error .nullDereference := by
        simp only [System.call, System.myPthreadExit, current']
      rw [fails, fails']
      exact ⟨.error _, fun p r s r' returned => by cases returned⟩
  | some c =>
      have exits := Program.call_exit (u := u) current
      rcases outcome with ⟨fault, failed, failed'⟩ | ⟨l, s, r, returned, returned', related⟩
      · change v.earlier.library.endThread = _ at failed
        rw [failed] at exits
        rw [exits, failed']
        exact ⟨.error fault, fun p r s r' returned => by cases returned⟩
      · change v.earlier.library.endThread = _ at returned
        rw [returned] at exits
        rw [exits, returned']
        cases reclaimed : v.earlier.heap.reclaim (v.earlier.library.tid c) with
        | none =>
            have unmapped : v.earlier.heap.mapping = none := Option.map_eq_none_iff.mp reclaimed
            exact ⟨.unmapped r rfl unmapped, fun p r s r' returned => by cases returned⟩
        | some heap =>
            obtain ⟨base, mapped, -⟩ := LazyHeap.reclaim_eq_some.mp reclaimed
            refine ⟨.ok r (related heap).sameLists fun _ => by simp [mapped], ?_⟩
            intro p r₁ s₁ r₂ hleft hright
            cases hleft
            cases hright
            exact related heap

/-- One call of each. -/
theorem Inv.call (inv : v.Inv) (enabled : v.later.Enabled e) (u : Unspecified) :
    v.Agree u e (v.earlier.call u e) (v.later.call e) ∧
      ∀ p r s r', v.earlier.call u e = .ok (p, r) → v.later.call e = .ok (s, r') →
        Inv ⟨p, s⟩ := by
  by_cases exit : e = .exit
  · subst exit
    exact inv.exits u
  · rw [Program.call_of_ne exit]
    rcases inv.calls enabled u with
      ⟨fault, failed, failed'⟩ | ⟨l, s, r, returned, returned', related⟩
    · rw [failed, failed']
      exact ⟨.error fault, fun p r s r' returned => by cases returned⟩
    · rw [returned, returned']
      refine ⟨.ok r (related _).sameLists fun h => absurd h exit, ?_⟩
      intro p r₁ s₁ r₂ hleft hright
      cases hleft
      cases hright
      exact related _

theorem Inv.reachable (reach : Runs.Reachable (Init main) Enabled Step v) : v.Inv := by
  refine reach.invariant _ (fun v init => init.inv) ?_
  intro v m v' enabled step inv
  cases m with
  | call e =>
      obtain ⟨⟨u, r, hearlier⟩, r', hlater⟩ := step
      exact (inv.call enabled u).2 _ _ _ _ hearlier hlater
  | use c =>
      obtain ⟨used, same⟩ := step
      obtain ⟨heap, -, moved⟩ := Option.map_eq_some_iff.mp used
      obtain ⟨p, s⟩ := v'
      cases same
      cases moved
      exact ⟨inv.earlier, inv.later, inv.lists⟩

/-- In every run of a program with both versions the lists are the same, and the next call
fails in both or does the same in both, but for the end of a thread without a pool. -/
theorem agree_of_reachable (reach : Runs.Reachable (Init main) Enabled Step v)
    (enabled : v.later.Enabled e) (u : Unspecified) :
    v.SameLists ∧ v.Agree u e (v.earlier.call u e) (v.later.call e) := by
  have inv := Inv.reachable reach
  exact ⟨inv.sameLists, (inv.call enabled u).1⟩

def next (u : Unspecified) (v : Versions) : VersionsEvent → Option Versions
  | .call e =>
      match v.earlier.call u e, v.later.call e with
      | .ok (p, _), .ok (s, _) => some ⟨p, s⟩
      | _, _ => none
  | .use c => (v.earlier.next (.use c)).map fun p => { v with earlier := p }

theorem step_of_next {m : VersionsEvent} (h : v.next u m = some v') : v.Step m v' := by
  cases m with
  | call e =>
      rw [next] at h
      split at h
      · rename_i p r s r' hp hs
        cases h
        exact ⟨⟨u, r, hp⟩, r', hs⟩
      · cases h
  | use c =>
      obtain ⟨p, used, rfl⟩ := Option.map_eq_some_iff.mp h
      exact ⟨used, rfl⟩

def start (main : ThreadId) : Versions :=
  ⟨⟨Library.start main, .untouched fun _ => 0⟩, System.start main 0⟩

theorem init_start (main : ThreadId) : (start main).Init main := by
  refine ⟨⟨Library.init_start main, .start ⟨_, rfl⟩⟩, System.init_start main 0, ?_⟩
  simp [start, Library.start, System.start]

instance (v : Versions) : DecidablePred v.Enabled
  | .call e => inferInstanceAs (Decidable (v.later.Enabled e))
  | .use _ => inferInstanceAs (Decidable True)

theorem reachable_of_next (reach : Runs.Reachable (Init main) Enabled
    (fun v m v' => v.next u m = some v') v) : Runs.Reachable (Init main) Enabled Step v := by
  obtain ⟨v₀, es, init, run⟩ := reach
  exact ⟨v₀, es, init, run.mapStep fun v e v' permitted taken => ⟨permitted, step_of_next taken⟩⟩

/-- A thread has ended, with a pool; thread 2 waits for the mutex of the main thread, and its
lock gives back what the register held. -/
theorem agree_lock_that_waits :
    ∃ v : Versions, v.later.queues.current = some 2 ∧ v.later.live 1 = false ∧
      v.Agree ⟨7, 5⟩ (.lock 1) (v.earlier.call ⟨7, 5⟩ (.lock 1)) (v.later.call (.lock 1)) := by
  obtain ⟨v, reach, running, ended⟩ := Runs.exists_reachable_of_run Enabled (next ⟨7, 5⟩)
    (init_start 0) (fun v => v.later.queues.current = some 2 ∧ v.later.live 1 = false)
    [.use (.malloc (some 0x70000000) 32), .call .mutexInit, .call (.create 1),
      .call (.create 2), .call (.lock 1), .call .yield, .call .exit] (by decide +kernel)
  have agree := agree_of_reachable (e := .lock 1) (reachable_of_next reach) trivial ⟨7, 5⟩
  exact ⟨v, running, ended, agree.2⟩

/-- The created thread ends before the first `my_malloc`. -/
theorem exit_without_pool :
    ∃ v : Versions, Runs.Reachable (Init 0) Enabled Step v ∧
      v.earlier.call ⟨7, 5⟩ .exit = .error .nullDereference ∧
      ∃ s r, v.later.call .exit = .ok (s, r) := by
  obtain ⟨v, reach, unmapped, returns⟩ := Runs.exists_reachable_of_run Enabled (next ⟨7, 5⟩)
    (init_start 0)
    (fun v => v.earlier.heap.mapping = none ∧ (v.later.call .exit).toOption.isSome = true)
    [.call (.create 1), .call .yield] (by decide +kernel)
  obtain ⟨⟨s, r⟩, returned⟩ := Option.isSome_iff_exists.mp returns
  have later := Outcome.toOption_eq_some_iff.mp returned
  have reach := reachable_of_next reach
  refine ⟨v, reach, ?_, s, r, later⟩
  have agree := ((Inv.reachable reach).exits ⟨7, 5⟩).1
  rw [later] at agree
  generalize v.earlier.call ⟨7, 5⟩ .exit = x at agree
  cases agree with
  | ok r same mapped => exact absurd unmapped (mapped rfl)
  | unmapped r exits none => rfl

end Versions

end OsDesign.Code
