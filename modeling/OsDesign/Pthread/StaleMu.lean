import OsDesign.Lib.TwoRuns
import OsDesign.Pthread.Paging
import Mathlib.Data.List.Find

/-!
The `mu` word of a thread is read while it waits and at no other time, and it is written
when the wait begins. Lists that differ only in `mu` words of threads that do not wait
make the same calls.
-/
namespace OsDesign.Pthread

open Virt TwoRuns

namespace Sched

/-- The lists of `b` are those of `a`, but for `mu` words of threads that do not wait. -/
def Alike (a b : Sched) : Prop :=
  ∃ mu, b = { a with mu := mu } ∧ ∀ t, t ∈ a.wait → a.mu t = mu t

variable {a b : Sched} {mu : ThreadId → Nat}

theorem Alike.current (alike : a.Alike b) : b.current = a.current := by
  obtain ⟨mu, rfl, -⟩ := alike
  rfl

theorem Alike.tid (alike : a.Alike b) : b.tid = a.tid := by
  obtain ⟨mu, rfl, -⟩ := alike
  rfl

theorem Alike.table (alike : a.Alike b) : b.table = a.table := by
  obtain ⟨mu, rfl, -⟩ := alike
  rfl

theorem Alike.wait (alike : a.Alike b) : b.wait = a.wait := by
  obtain ⟨mu, rfl, -⟩ := alike
  rfl

theorem schedule_setMu (a : Sched) (mu : ThreadId → Nat) :
    ({ a with mu := mu } : Sched).schedule = { a.schedule with mu := mu } := by
  obtain ⟨current, ready, wait, mu', tid, table, live⟩ := a
  cases ready <;> rfl

theorem Alike.schedule (alike : a.Alike b) : a.schedule.Alike b.schedule := by
  obtain ⟨mu, rfl, agree⟩ := alike
  refine ⟨mu, schedule_setMu a mu, ?_⟩
  obtain ⟨current, ready, wait, mu', tid, table, live⟩ := a
  cases ready <;> exact agree

/-- The thread that goes to sleep has the same `mu` in both. -/
theorem Alike.swap (alike : a.Alike b) {t : ThreadId} (same : a.mu t = b.mu t) :
    (a.swap t).Alike (b.swap t) := by
  obtain ⟨mu, rfl, agree⟩ := alike
  obtain ⟨current, ready, wait, mu', tid, table, live⟩ := a
  cases ready with
  | nil => exact ⟨mu, rfl, agree⟩
  | cons next rest =>
      refine ⟨mu, rfl, ?_⟩
      intro u hu
      cases List.mem_append.mp hu with
      | inl waiting => exact agree u waiting
      | inr last => exact List.mem_singleton.mp last ▸ same

theorem eraseP_congr {α : Type*} {p q : α → Bool} {xs : List α} (h : ∀ x, x ∈ xs → p x = q x) :
    xs.eraseP p = xs.eraseP q := by
  induction xs with
  | nil => rfl
  | cons x xs ih =>
      have rest := ih fun y hy => h y (List.mem_cons_of_mem x hy)
      rw [List.eraseP_cons, List.eraseP_cons, h x List.mem_cons_self, rest]

/-- Both searches of the wait queue stop at the same thread. -/
theorem Alike.release (alike : a.Alike b) (h : Nat) : (a.release h).Alike (b.release h) := by
  obtain ⟨mu, rfl, agree⟩ := alike
  have tests : ∀ t, t ∈ a.wait → a.waitsOn h t = ({ a with mu := mu } : Sched).waitsOn h t := by
    intro t ht
    simp only [waitsOn, agree t ht]
  refine ⟨mu, ?_, ?_⟩
  · simp only [Sched.release, List.find?_congr tests, eraseP_congr tests]
  · exact fun t ht => agree t (List.mem_of_mem_eraseP ht)

theorem Alike.create (alike : a.Alike b) (ti : ThreadId) :
    Paired Alike (a.create ti) (b.create ti) := by
  obtain ⟨mu, rfl, agree⟩ := alike
  simp only [Sched.create]
  cases a.table.allocMutex with
  | mk table handle =>
      cases handle with
      | none => exact .error Fault.outOfBounds
      | some tid =>
          refine .ok _ ⟨Function.update mu ti 0, rfl, ?_⟩
          intro t ht
          by_cases same : t = ti
          · subst same
            simp
          · simp only [Function.update_of_ne same]
            exact agree t ht

theorem Alike.retired (alike : a.Alike b) (c : ThreadId) : (a.retired c).Alike (b.retired c) := by
  have released := alike.release (a.tid c)
  obtain ⟨mu, moved, agree⟩ := released
  obtain ⟨mu', rfl, -⟩ := alike
  refine ⟨mu, ?_, agree⟩
  simp only [Sched.retired, moved]

theorem Alike.exit (alike : a.Alike b) : Paired Alike a.exit b.exit := by
  simp only [Sched.exit, alike.current, alike.tid]
  cases a.current with
  | none => exact .error Fault.nullDereference
  | some c =>
      by_cases inTable : maxMutexNum ≤ a.tid c
      · simp only [if_pos inTable]
        exact .error Fault.outOfBounds
      · simp only [if_neg inTable]
        exact .ok _ (alike.retired c).schedule

theorem Alike.setTable (alike : a.Alike b) (table : MutexTable) :
    ({ a with table := table } : Sched).Alike { b with table := table } := by
  obtain ⟨mu, rfl, agree⟩ := alike
  exact ⟨mu, rfl, agree⟩

/-- `CURRENT->mu = h` in both. -/
theorem Alike.counted (alike : a.Alike b) (c : ThreadId) (h : Nat) :
    (a.counted c h).Alike (b.counted c h) := by
  obtain ⟨mu, rfl, agree⟩ := alike
  refine ⟨Function.update mu c h, rfl, ?_⟩
  intro t ht
  simp only [Sched.counted]
  by_cases same : t = c
  · subst same
    simp
  · simp only [Function.update_of_ne same]
    exact agree t ht

theorem Alike.countAndWait (alike : a.Alike b) (h : Nat) :
    Paired Alike (a.countAndWait h) (b.countAndWait h) := by
  have current := alike.current
  simp only [Sched.countAndWait, alike.table]
  split
  · exact .error Fault.outOfBounds
  split
  · exact .ok _ alike
  split
  · exact .ok _ (alike.setTable _)
  cases running : a.current with
  | none =>
      rw [running] at current
      simp only [current]
      exact .error Fault.nullDereference
  | some c =>
      rw [running] at current
      simp only [current]
      refine .ok _ ((alike.counted c h).swap ?_)
      simp [Sched.counted]

theorem Alike.mutexInit (alike : a.Alike b) : Paired Alike a.mutexInit b.mutexInit := by
  simp only [Sched.mutexInit, alike.table]
  cases a.table.allocMutex with
  | mk table handle =>
      cases handle with
      | none => exact .error Fault.errExit
      | some i => exact .ok _ (alike.setTable table)

theorem Alike.unlock (alike : a.Alike b) (h : Nat) : Paired Alike (a.unlock h) (b.unlock h) := by
  simp only [Sched.unlock, alike.table]
  split
  · exact .error Fault.outOfBounds
  split
  · exact .ok _ alike
  split
  · exact .ok _ alike
  split
  · exact .ok _ (alike.setTable _)
  · exact .ok _ ((alike.release h).setTable _)

theorem Alike.destroy (alike : a.Alike b) (h : Nat) :
    Paired Alike (a.destroy h) (b.destroy h) := by
  simp only [Sched.destroy, alike.table]
  split
  · exact .error Fault.outOfBounds
  split
  · exact .ok _ alike
  · exact .ok _ (alike.setTable _)

/-- No call tells the lists apart. -/
theorem Alike.call (alike : a.Alike b) (e : Event) : Paired Alike (a.call e) (b.call e) := by
  cases e with
  | create ti => exact alike.create ti
  | yield | tick => exact .ok _ alike.schedule
  | exit => exact alike.exit
  | join h | lock h => exact alike.countAndWait h
  | mutexInit => exact alike.mutexInit
  | unlock h => exact alike.unlock h
  | destroy h => exact alike.destroy h

theorem Alike.switched (alike : a.Alike b) (p : Process) : a.switched p = b.switched p := by
  obtain ⟨mu, rfl, -⟩ := alike
  rfl

/-- The paging layer is moved alike. -/
theorem Alike.pages (alike : a.Alike b) (p : Process) (e : Event) : a.pages p e = b.pages p e := by
  cases e with
  | create ti => rfl
  | yield | tick => exact alike.switched p
  | exit =>
      simp only [Sched.pages, alike.current]
      cases a.current with
      | none => rfl
      | some c => exact (alike.retired c).switched (p.retire c)
  | join h | lock h => simp only [Sched.pages, alike.table, alike.switched p]
  | mutexInit | unlock _ | destroy _ => rfl

end Sched

namespace System

/-- Well-formed states with alike lists and the same paging layer. -/
structure Alike (s t : System) : Prop where
  left : s.WellFormed
  right : t.WellFormed
  lists : s.sched.Alike t.sched
  process : s.process = t.process

variable {s t : System}

theorem Alike.live (alike : s.Alike t) : s.live = t.live := congrArg Process.live alike.process

theorem Alike.enabled_iff (alike : s.Alike t) (e : Event) : s.Enabled e ↔ t.Enabled e := by
  cases e with
  | create ti => simp only [Enabled, alike.live]
  | _ => exact Iff.rfl

/-- No call of the library tells the states apart. -/
theorem Alike.call (alike : s.Alike t) {e : Event} (enabled : s.Enabled e) :
    Paired Alike (s.call e) (t.call e) := by
  have left := alike.left.matches_call enabled
  have right := alike.right.matches_call ((alike.enabled_iff e).mp enabled)
  have lists := alike.lists.call e
  generalize hs : s.call e = x at left
  generalize ht : t.call e = y at right
  generalize s.sched.call e = a at left lists
  generalize t.sched.call e = b at right lists
  cases left with
  | error fault =>
      cases lists with
      | error _ =>
          cases right with
          | error _ => exact .error fault
  | ok s' r wf _ =>
      cases lists with
      | ok _ related =>
          cases right with
          | ok t' _ wf' _ =>
              refine .ok r ⟨wf, wf', related, ?_⟩
              rw [alike.left.call_pages hs, alike.right.call_pages ht, alike.process]
              exact alike.lists.pages t.process e

end System

end OsDesign.Pthread
