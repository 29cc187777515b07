import Mathlib.Algebra.BigOperators.Group.Finset.Basic
import Mathlib.Algebra.Order.BigOperators.Group.Finset
import OsDesign.Test.Library

/-!
What every run of `test.c` keeps over the ideal process. Before `my_pthread_init` nothing has
happened; behind it the threads are on their lists, the messages in their pages, and each
thread is where its outline says.
-/
namespace OsDesign.Test

open Virt Pthread Whole Heap CString

namespace MainPoint

/-- The threads that `main` has created. -/
def made : MainPoint → Nat
  | .init => 0
  | .sharing who | .clearing who _ | .copying who _ | .creating who => who.index
  | .joining _ | .finished => 2

/-- The pages of the share section that it has got. -/
def shared : MainPoint → Nat
  | .init => 0
  | .sharing who => who.index
  | .clearing who _ | .copying who _ | .creating who => who.index + 1
  | .joining _ | .finished => 2

/-- It waits for `bigspender`. -/
def waits : MainPoint → Bool
  | .joining .tester | .finished => true
  | _ => false

end MainPoint

/-- How far `main` has come with the message that it writes. -/
def Written (point : MainPoint) (shared : Nat → UInt8) : Prop :=
  match point with
  | .clearing _ j => j < 512
  | .copying who j => j < (message who).length + 1 ∧ Begins shared (page who) (message who) j
  | .creating who => Begins shared (page who) (message who) ((message who).length + 1)
  | _ => True

/-- The scheduler and the variables of `main` that name threads. -/
structure Roster (k : Globals) (a : Sched) (main : ThreadId) (others : List ThreadId) : Prop where
  lists : Lists a main others k.main.waits
  nodup : (main :: others).Nodup
  live : ∀ t, t ∈ main :: others → a.live t = true
  workers : ∀ t, (k.worker t).isSome = true ↔ t ∈ others
  count : others.length = k.main.made
  -- the join adds to the count of `bigspender`, and nobody reads the table behind it
  table : k.main.waits = false → a.table = handles k.main.made
  tids : ∀ who : Role, who.index < k.main.made → k.tid who = who.index + 1

/-- The share section and the variables of `main` that point into it. -/
structure Messages (k : Globals) (i : Ideal) : Prop where
  init : i.gPthreadInit = true
  share : i.share = pagesTaken k.main.shared
  pshare : ∀ who : Role, who.index < k.main.shared → k.pshare who = page who
  given : ∀ who : Role, who.index < k.main.made →
    Begins i.shared (page who) (message who) ((message who).length + 1)
  written : Written k.main i.shared

/-- One of the created threads. -/
structure Thread (k : Globals) (o : OwnHeap) (t : ThreadId) (who : Role) (w : Local) : Prop where
  index : who.index < k.main.made
  arg : w.arg = page who
  stands : Stands who o w
  account : Account who w.point (k.lines t) (k.statements t)

/-- The heaps and the output of the threads. -/
structure Workers (k : Globals) (i : Ideal) (others : List ThreadId) : Prop where
  threads : ∀ t who w, k.worker t = some (who, w) → Thread k (i.own t) t who w
  silent : ∀ t, k.worker t = none → k.lines t = [] ∧ k.statements t = 0
  granted : i.granted = ∑ t ∈ others.toFinset, (i.own t).pages

inductive Standing (k : Globals) (i : Ideal) : Prop
  | idle (program : k = .start) (process : i = .start)
  | runs (main : ThreadId) (others : List ThreadId) (begun : k.main ≠ .init)
      (goes : k.main ≠ .finished) (roster : Roster k i.sched main others)
      (messages : Messages k i) (workers : Workers k i others)

variable {k : Globals} {i : Ideal} {a : Sched} {main t ti : ThreadId} {others : List ThreadId}
  {who : Role} {w : Local} {j : Nat}

theorem lines_goWorker_self (w : Local × Option (List UInt8)) :
    (k.goWorker t who w).lines t = k.lines t ++ w.2.toList := by
  cases printed : w.2 <;> simp [Globals.lines, Globals.goWorker, printed]

theorem lines_goWorker_of_ne {u : ThreadId} (other : u ≠ t) (w : Local × Option (List UInt8)) :
    (k.goWorker t who w).lines u = k.lines u := by
  cases printed : w.2 <;> simp [Globals.lines, Globals.goWorker, printed, other.symm]

theorem Stands.pages_le {o : OwnHeap} (stands : Stands who o w) : o.pages ≤ 2 := by
  obtain ⟨arg, p, point⟩ := w
  cases point with
  | message read => exact stands.1.pages_le
  | clearing j | copying j | reading read => exact stands.1.pages_le
  | allocating | freeing => exact OwnHeap.Single.pages_le stands

/-- Who runs: the main thread, or one that it created. -/
theorem Roster.running_cases (roster : Roster k a main others) (running : a.current = some t) :
    (t = main ∧ k.main.waits = false ∧ k.worker t = none) ∨
      ∃ who w, k.worker t = some (who, w) ∧ t ∈ others := by
  by_cases mem : t ∈ others
  · obtain ⟨⟨who, w⟩, here⟩ := Option.isSome_iff_exists.mp ((roster.workers t).mpr mem)
    exact .inr ⟨who, w, here, mem⟩
  · left
    have listed := roster.lists.mem running
    have none : k.worker t = none := by
      rw [← Option.not_isSome_iff_eq_none, roster.workers]
      exact mem
    cases waits : k.main.waits with
    | true =>
        rw [waits, if_pos rfl] at listed
        exact absurd listed mem
    | false =>
        rw [waits, if_neg (by decide)] at listed
        exact ⟨(List.mem_cons.mp listed).resolve_right mem, rfl, none⟩

/-- All threads together have at most four pages. -/
theorem Workers.granted_le (workers : Workers k i others) (roster : Roster k a main others) :
    i.granted ≤ 4 := by
  have made : k.main.made ≤ 2 := by
    cases k.main with
    | init => decide
    | sharing who | clearing who _ | copying who _ | creating who => exact (index_lt who).le
    | joining _ | finished => exact Nat.le_refl _
  have each : ∀ t ∈ others.toFinset, (i.own t).pages ≤ 2 := by
    intro t mem
    obtain ⟨⟨who, w⟩, here⟩ :=
      Option.isSome_iff_exists.mp ((roster.workers t).mpr (List.mem_toFinset.mp mem))
    exact (workers.threads t who w here).stands.pages_le
  have few : others.toFinset.card ≤ 2 :=
    others.toFinset_card_le.trans (roster.count.le.trans made)
  have sum := Finset.sum_le_card_nsmul _ _ 2 each
  change _ ≤ others.toFinset.card * 2 at sum
  rw [workers.granted]
  omega

end OsDesign.Test
