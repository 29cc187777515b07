import OsDesign.Code.Library
import OsDesign.Pthread.Simulation

/-!
Which joiners the end of a thread wakes, in both versions of the library. The
loop of `release_all_thread` ends at the first thread it moves, so every joiner
is woken exactly if at most one thread waits.
-/
namespace OsDesign.Pthread

open Virt

/-- "once thread return or exit, signal all the waiting threads" -/
structure EveryJoinerReady (h : Nat) (q q' : Queues) : Prop where
  ready : q'.ready = q.ready ++ q.wait.filter (q.waitsOn h)
  wait : q'.wait = q.wait.filter fun t => !q.waitsOn h t

instance (h : Nat) (q q' : Queues) : Decidable (EveryJoinerReady h q q') :=
  decidable_of_iff (q'.ready = q.ready ++ q.wait.filter (q.waitsOn h) ∧
      q'.wait = q.wait.filter fun t => !q.waitsOn h t)
    ⟨fun h => ⟨h.1, h.2⟩, fun h => ⟨h.ready, h.wait⟩⟩

/-- The threads that wait on `h`. -/
def Queues.joiners (q : Queues) (h : Nat) : List ThreadId := q.wait.filter (q.waitsOn h)

theorem head?_toList_eq_iff (xs : List ThreadId) : xs.head?.toList = xs ↔ xs.length ≤ 1 := by
  cases xs with
  | nil => simp
  | cons a xs => cases xs <;> simp

theorem eraseP_eq_filter (p : ThreadId → Bool) (ws : List ThreadId)
    (few : (ws.filter p).length ≤ 1) : ws.eraseP p = ws.filter fun t => !p t := by
  induction ws with
  | nil => rfl
  | cons a ws ih =>
      by_cases ha : p a = true
      · have hnone : ws.filter p = [] := by
          rw [List.filter_cons_of_pos ha, List.length_cons] at few
          exact List.length_eq_zero_iff.mp (by omega)
        have hkept : ws.filter (fun t => !p t) = ws := by
          refine List.filter_eq_self.mpr ?_
          intro b hb
          simpa using List.filter_eq_nil_iff.mp hnone b hb
        rw [List.eraseP_cons_of_pos ha, List.filter_cons_of_neg (by simp [ha]), hkept]
      · rw [List.filter_cons_of_neg ha] at few
        rw [List.eraseP_cons_of_neg ha, List.filter_cons_of_pos (by simp [ha]), ih few]

/-- Moving only the first waiting thread moves all of them if there is no second. -/
theorem everyJoinerReady_iff {q q' : Queues} {h : Nat}
    (holds' : q'.Holds (q.ready ++ (q.wait.find? (q.waitsOn h)).toList)
      (q.wait.eraseP (q.waitsOn h))) :
    EveryJoinerReady h q q' ↔ (q.joiners h).length ≤ 1 := by
  have hfind : (q.wait.find? (q.waitsOn h)).toList = (q.joiners h).head?.toList := by
    rw [Queues.joiners, List.head?_filter]
  constructor
  · intro all
    have hready := all.ready
    rw [holds'.ready_eq, hfind] at hready
    exact (head?_toList_eq_iff _).mp (List.append_cancel_left hready)
  · intro few
    refine ⟨?_, ?_⟩
    · rw [holds'.ready_eq, hfind, (head?_toList_eq_iff _).mpr few]
      rfl
    · rw [holds'.wait_eq]
      exact eraseP_eq_filter _ _ few

/-- In every reachable state of either version, the end of a thread with the
handle `h` wakes every thread that waits on it if and only if at most one does. -/
theorem releaseAllThread_wakes_iff {main main' : ThreadId} {s : System} {l : Code.Library}
    (reach : Runs.Reachable (System.Init main) System.Enabled System.Step s)
    (reach' : Runs.Reachable (Code.Library.Init main') Code.Library.Enabled Code.Library.Step l)
    (h : Nat) :
    (∃ q', s.queues.releaseAllThread h = .ok q' ∧
      (EveryJoinerReady h s.queues q' ↔ (s.queues.joiners h).length ≤ 1)) ∧
    ∃ q', Code.releaseAllThread h l.queues = .ok q' ∧
      (EveryJoinerReady h l.queues q' ↔ (l.queues.joiners h).length ≤ 1) := by
  have wf := System.WellFormed.reachable reach
  obtain ⟨q', hq, -, -, holds⟩ := wf.holds.releaseAllThread h
  obtain ⟨rs, ws, holdsCode, -⟩ := Code.Library.WellFormed.reachable reach'
  obtain ⟨p', -, hp, -, holdsCode'⟩ := Code.release_ok holdsCode h
  refine ⟨⟨q', hq, everyJoinerReady_iff holds⟩, p', hp, everyJoinerReady_iff ?_⟩
  rw [holdsCode.ready_eq, holdsCode.wait_eq]
  exact holdsCode'

/-- One joiner, which the end of the running thread wakes. -/
theorem releaseAllThread_wakes_joiner :
    ∃ s q', (System.start 0 0).execute [.create 1, .join 1] = some s ∧
      s.queues.releaseAllThread (s.tid 1) = .ok q' ∧
      (EveryJoinerReady (s.tid 1) s.queues q' ↔ (s.queues.joiners (s.tid 1)).length ≤ 1) := by
  have hrun : ((System.start 0 0).execute [.create 1, .join 1]).isSome := by decide +kernel
  obtain ⟨s, hs⟩ := Option.isSome_iff_exists.mp hrun
  obtain ⟨q', hq⟩ := (releaseAllThread_wakes_iff (System.reachable_of_execute hs)
    (.start (Code.Library.init_start 0)) (s.tid 1)).1
  exact ⟨s, q', hs, hq⟩

/-- Threads 0 and 2 join thread 1, which then ends: thread 2 goes on waiting. -/
theorem second_joiner_left_waiting :
    ∃ s q', (System.start 0 0).execute [.create 1, .create 2, .join 1, .yield, .join 1] = some s ∧
      s.queues.current = some 1 ∧ s.queues.releaseAllThread (s.tid 1) = .ok q' ∧
      2 ∈ q'.wait ∧ q'.mu 2 = s.tid 1 ∧ ¬ EveryJoinerReady (s.tid 1) s.queues q' := by
  have hrun : ((System.start 0 0).execute
      [.create 1, .create 2, .join 1, .yield, .join 1]).any
      (fun s => (s.queues.releaseAllThread (s.tid 1)).toOption.any fun q' =>
        decide (s.queues.current = some 1 ∧ 2 ∈ q'.wait ∧ q'.mu 2 = s.tid 1 ∧
          ¬ EveryJoinerReady (s.tid 1) s.queues q')) = true := by decide +kernel
  obtain ⟨s, hs, hleft⟩ := (Option.any_eq_true _ _).mp hrun
  cases hq : s.queues.releaseAllThread (s.tid 1) with
  | error fault =>
      rw [hq] at hleft
      cases hleft
  | ok q' =>
      rw [hq] at hleft
      have facts : s.queues.current = some 1 ∧ 2 ∈ q'.wait ∧ q'.mu 2 = s.tid 1 ∧
          ¬ EveryJoinerReady (s.tid 1) s.queues q' := of_decide_eq_true hleft
      exact ⟨s, q', hs, facts.1, hq, facts.2⟩

end OsDesign.Pthread
