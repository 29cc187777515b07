import OsDesign.Pthread.Simulation
import OsDesign.Virt.Pointers

/-!
The calls of `my_pthread.c` that end at a NULL `CURRENT`, read off the lists, and the
library without threads, as it is before `my_pthread_init`.
-/
namespace OsDesign.Pthread

open Virt

/-- A lock or join of the entry waits. -/
def MutexTable.Contended (table : MutexTable) (h : Nat) : Prop :=
  h < maxMutexNum ∧ (table h).used = true ∧ (table h).count ≠ 0

namespace Sched

variable {a a' : Sched} {r : Return}

theorem countAndWait_null_iff (a : Sched) (h : Nat) : a.countAndWait h = .error .nullDereference ↔
    a.current = none ∧ a.table.Contended h := by
  rw [countAndWait]
  split
  · rename_i hlarge
    exact iff_of_false (by simp) fun null => absurd null.2.1 (Nat.not_lt.mpr hlarge)
  · rename_i hsmall
    split
    · rename_i hunused
      refine iff_of_false (by simp) fun null => ?_
      have used := null.2.2.1
      rw [hunused] at used
      cases used
    · rename_i hused
      split
      · rename_i hfree
        exact iff_of_false (by simp) fun null => absurd hfree null.2.2.2
      · rename_i hcount
        have contended : a.table.Contended h :=
          ⟨Nat.lt_of_not_le hsmall, Bool.eq_true_of_not_eq_false hused, hcount⟩
        split
        · exact ⟨fun _ => ⟨‹_›, contended⟩, fun _ => rfl⟩
        · rename_i current hcurrent
          refine iff_of_false (by simp) fun null => ?_
          rw [hcurrent] at null
          cases null.1

/-- The calls that end at a NULL `CURRENT`. -/
theorem call_null_iff (a : Sched) (e : Event) : a.call e = .error .nullDereference ↔
    a.current = none ∧
      (e = .exit ∨ ∃ h, (e = .join h ∨ e = .lock h) ∧ a.table.Contended h) := by
  cases e with
  | join h | lock h =>
      rw [call, countAndWait_null_iff]
      constructor
      · exact fun null => ⟨null.1, .inr ⟨h, by simp, null.2⟩⟩
      · rintro ⟨none, hexit | ⟨h', same, contended⟩⟩
        · cases hexit
        · simp only [Event.join.injEq, Event.lock.injEq, reduceCtorEq, or_false, false_or] at same
          exact ⟨none, same ▸ contended⟩
  | exit =>
      rw [call, exit]
      split
      · exact ⟨fun _ => ⟨‹_›, .inl rfl⟩, fun _ => rfl⟩
      · rename_i current hcurrent
        constructor
        · split <;> simp
        · intro null
          rw [hcurrent] at null
          cases null.1
  | create ti =>
      simp only [call, create]
      split <;> simp
  | yield | tick => simp [call]
  | mutexInit =>
      simp only [call, mutexInit]
      split <;> simp
  | unlock h =>
      simp only [call, unlock]
      split
      · simp
      split
      · simp
      split
      · simp
      split <;> simp
  | destroy h =>
      simp only [call, destroy]
      split
      · simp
      split <;> simp

theorem threads_eq_nil : a.threads = [] ↔ a.current = none ∧ a.ready = [] ∧ a.wait = [] := by
  simp [threads]

/-- Without threads the calls move none. -/
theorem call_idle (idle : a.threads = []) {e : Event} (plain : ∀ ti, e ≠ .create ti)
    (h : a.call e = .ok (a', r)) : a'.threads = [] := by
  refine List.eq_nil_iff_forall_not_mem.mpr ?_
  intro t mem
  have before := mem_threads_call plain h mem
  rw [idle] at before
  cases before

end Sched

/-- A call fails as the call on the lists does. -/
theorem System.WellFormed.call_error_iff {s : System} (wf : s.WellFormed) {e : Event}
    (enabled : s.Enabled e) (fault : Fault) :
    s.call e = .error fault ↔ s.sched.call e = .error fault := by
  have hmatches := wf.matches_call enabled
  generalize s.call e = outcome at hmatches
  generalize s.sched.call e = lists at hmatches
  cases hmatches with
  | error fault' => simp
  | ok s' r _ _ => simp

/-- The steps of the paging layer behind a call keep the owners of the frames. -/
theorem System.PagingRun.owned {s s' : System} (paging : s.PagingRun s') (owned : Owned s.vm) :
    Owned s'.vm := by
  obtain ⟨es, run⟩ := paging
  exact run.preserves (fun p => Owned p.vm)
    (fun _ _ _ _ step owned => Process.Owned.step owned step) owned

end OsDesign.Pthread
