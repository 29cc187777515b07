import Mathlib.Tactic.IntervalCases
import OsDesign.Test.Threads

/-!
What the scheduler, the mutex table and the share section do for `test.c`: three threads of
which the first creates the others and then waits for ever, a handle for each thread that
was created, and a page of the share section for each message.
-/
namespace OsDesign.Test

open Virt Pthread Whole Loops Tally

/-- The table behind the creation of `n` threads. -/
def handles (n : Nat) : MutexTable := fun h => if 1 ≤ h ∧ h ≤ n then ⟨true, 1⟩ else ⟨false, 0⟩

theorem handles_used {n h : Nat} (range : 1 ≤ h ∧ h ≤ n) : handles n h = ⟨true, 1⟩ := if_pos range

theorem handles_free {n h : Nat} (range : ¬ (1 ≤ h ∧ h ≤ n)) : handles n h = ⟨false, 0⟩ :=
  if_neg range

theorem allocMutex_handles {n : Nat} (room : n + 1 < maxMutexNum) :
    (handles n).allocMutex = (Function.update (handles n) (n + 1) ⟨true, 0⟩, some (n + 1)) := by
  have found : firstIndex (maxMutexNum - 1) (fun i => !(handles n (i + 1)).used) = some n := by
    refine firstIndex_eq_some.mpr ⟨?_, Nat.lt_sub_of_add_lt room, ?_⟩
    · rw [handles_free (by omega)]
      rfl
    · intro j hj
      rw [handles_used (by omega)]
      rfl
  rw [MutexTable.allocMutex, found]

theorem setCount_handles (n : Nat) :
    MutexTable.setCount (Function.update (handles n) (n + 1) ⟨true, 0⟩) (n + 1) 1 =
      handles (n + 1) := by
  funext h
  rw [MutexTable.setCount, Function.update_self]
  by_cases new : h = n + 1
  · rw [new, Function.update_self, handles_used (by omega)]
  · rw [Function.update_of_ne new, Function.update_of_ne new]
    by_cases old : 1 ≤ h ∧ h ≤ n
    · rw [handles_used old, handles_used (by omega)]
    · rw [handles_free old, handles_free (by omega)]

theorem create_handles {a : Sched} {n : Nat} (table : a.table = handles n)
    (room : n + 1 < maxMutexNum) (ti : ThreadId) :
    a.create ti = .ok ({ a with
      ready := a.ready ++ [ti]
      mu := Function.update a.mu ti 0
      tid := Function.update a.tid ti (n + 1)
      table := handles (n + 1)
      live := Function.update a.live ti true }, ⟨0, some (n + 1)⟩) := by
  rw [Sched.create, table, allocMutex_handles room]
  dsimp only
  rw [setCount_handles]

/-- The threads on the lists: the main thread, until it waits, and the others. -/
structure Lists (a : Sched) (main : ThreadId) (others : List ThreadId) (waits : Bool) : Prop where
  current : ∃ t, a.current = some t
  wait : a.wait = if waits then [main] else []
  perm : (a.current.toList ++ a.ready).Perm (if waits then others else main :: others)

section Scheduler

variable {a : Sched} {main t ti : ThreadId} {others : List ThreadId} {waits : Bool}

theorem Lists.mem (lists : Lists a main others waits) (running : a.current = some t) :
    t ∈ (if waits then others else main :: others) := by
  refine lists.perm.mem_iff.mp (List.mem_append_left _ ?_)
  rw [running]
  exact List.mem_cons_self

/-- The timer. -/
theorem Lists.schedule (lists : Lists a main others waits) :
    Lists a.schedule main others waits := by
  rw [Sched.schedule]
  cases queue : a.ready with
  | nil => exact lists
  | cons next rest =>
      have perm := lists.perm
      rw [queue] at perm
      refine ⟨⟨next, rfl⟩, lists.wait, ?_⟩
      change ([next] ++ (rest ++ a.current.toList)).Perm _
      rw [← List.append_assoc]
      exact List.perm_append_comm.trans perm

/-- A new thread comes behind the ready ones. -/
theorem Lists.create (lists : Lists a main others false) {a' : Sched}
    (same : a'.current = a.current) (ready : a'.ready = a.ready ++ [ti]) (wait : a'.wait = a.wait) :
    Lists a' main (ti :: others) false := by
  refine ⟨same ▸ lists.current, wait.trans lists.wait, ?_⟩
  rw [same, ready, ← List.append_assoc]
  have perm : (a.current.toList ++ a.ready).Perm (main :: others) := lists.perm
  exact (List.perm_append_comm.trans (perm.cons ti)).trans (List.Perm.swap main ti others)

/-- The main thread joins a thread that has not ended, and waits. -/
theorem Lists.join (lists : Lists a main others false) (running : a.current = some main)
    (more : others ≠ []) {n h : Nat} (table : a.table = handles n) (range : 1 ≤ h ∧ h ≤ n)
    (room : n < maxMutexNum) :
    ∃ a', a.countAndWait h = .ok (a', ⟨0, none⟩) ∧ Lists a' main others true ∧
      a'.live = a.live := by
  have entry : a.table h = ⟨true, 1⟩ := by rw [table, handles_used range]
  have perm : (a.current.toList ++ a.ready).Perm (main :: others) := lists.perm
  rw [running] at perm
  have ready := List.Perm.cons_inv perm
  cases queue : a.ready with
  | nil =>
      rw [queue] at ready
      exact absurd (List.nil_perm.mp ready) more
  | cons next rest =>
      rw [queue] at ready
      have swapped : (a.counted main h).swap main =
          { a.counted main h with
            current := some next
            ready := rest
            wait := a.wait ++ [main] } := by
        rw [Sched.swap]
        simp only [Sched.counted, queue]
      refine ⟨(a.counted main h).swap main, ?_, ?_⟩
      · rw [Sched.countAndWait, if_neg (by omega), entry, if_neg (by decide), if_neg (by decide),
          running]
      · rw [swapped]
        refine ⟨⟨⟨next, rfl⟩, ?_, ready⟩, rfl⟩
        change a.wait ++ [main] = [main]
        rw [lists.wait]
        rfl

end Scheduler

section Pages

variable {who who' : Role} {j j' : Nat}

/-- The order in which `main` creates the threads. -/
def Role.index : Role → Nat
  | .bigspender => 0
  | .tester => 1

/-- The page of the share section with the message of the thread. -/
def page (who : Role) : Nat := virtualShareStart + who.index * pageSize

theorem index_lt (who : Role) : who.index < 2 := by cases who <;> decide

theorem index_injective (same : who.index = who'.index) : who = who' := by
  cases who <;> cases who' <;> first | rfl | cases same

theorem index_ne (other : who ≠ who') : who.index ≠ who'.index :=
  fun same => other (index_injective same)

theorem message_length (who : Role) : (message who).length < 512 := by
  cases who <;> decide +kernel

theorem page_inShare (who : Role) (hj : j < 512) : InShare (page who + j) := by
  have index := index_lt who
  rw [page]
  refine ⟨?_, ?_⟩
  · change 0x607FC000 ≤ 0x607FC000 + who.index * 4096 + j
    omega
  · change 0x607FC000 + who.index * 4096 + j ≤ 0x607FFFFF
    omega

/-- The bytes of two pages are different ones. -/
theorem page_apart (other : who ≠ who') (hj : j < 512)
    (hj' : j' < 512) : page who + j ≠ page who' + j' := by
  have apart := index_ne other
  change 0x607FC000 + who.index * 4096 + j ≠ 0x607FC000 + who'.index * 4096 + j'
  omega

end Pages

/-- The share section behind `n` requests for a page. -/
def pagesTaken (n : Nat) : Shm.Charmap := ⟨fun k => decide (k < n), BitVec.ofNat 32 n⟩

theorem pagesTaken_zero : pagesTaken 0 = Shm.shinit := by
  simp [pagesTaken, Shm.shinit]

theorem fill_pagesTaken (n : Nat) :
    (⟨fill (pagesTaken n).gShare n 1 true, (pagesTaken n).gShareCount + BitVec.ofNat 32 1⟩ :
      Shm.Charmap) = pagesTaken (n + 1) := by
  have flags : fill (pagesTaken n).gShare n 1 true = (pagesTaken (n + 1)).gShare := by
    funext k
    by_cases new : k = n
    · rw [new, fill_of_mem true (by omega)]
      exact (decide_eq_true (Nat.lt_succ_self n)).symm
    · rw [fill_of_notMem true (by omega)]
      exact decide_eq_decide.mpr (by omega)
  have count : (pagesTaken n).gShareCount + BitVec.ofNat 32 1 = (pagesTaken (n + 1)).gShareCount :=
    (BitVec.ofNat_add n 1).symm
  rw [flags, count]

/-- A request for 512 bytes is given the next page. -/
theorem shalloc_pagesTaken {n : Nat} (room : n < 4) :
    Shm.shalloc 512 (pagesTaken n) =
      .ok (pagesTaken (n + 1), some (virtualShareStart + n * pageSize)) := by
  have one : (Shm.pageCount 512).toInt = 1 := by decide
  -- the count of a `Charmap` is an `int`, so that the room left is computed in 32 bits
  have left : (pagesTaken n).room = 4 - n := by
    rw [Shm.Charmap.room, Shm.maxSharePages_eq, pagesTaken]
    interval_cases n <;> rfl
  have guard : ¬ ((1 : Int) ≤ 0 ∨ (pagesTaken n).room < 1) := by omega
  have first : firstIndex Shm.maxSharePages (fun i => !(pagesTaken n).gShare i) = some n := by
    rw [Shm.maxSharePages_eq]
    refine firstIndex_eq_some.mpr ⟨?_, room, ?_⟩
    · simp [pagesTaken]
    · intro j hj
      simp [pagesTaken, hj]
  have counted : Shm.countFree (pagesTaken n).gShare 1 (Shm.maxSharePages - n) n 0 = (n, 1) := by
    have free : (pagesTaken n).gShare n = false := by simp [pagesTaken]
    obtain ⟨turns, some_left⟩ : ∃ turns, Shm.maxSharePages - n = turns + 1 :=
      ⟨3 - n, by rw [Shm.maxSharePages_eq]; omega⟩
    rw [some_left, Shm.countFree, if_pos free]
    rfl
  simp only [Shm.shalloc, one, if_neg guard, first, counted]
  rw [if_neg (by decide), Nat.add_sub_cancel, fill_pagesTaken]

end OsDesign.Test
