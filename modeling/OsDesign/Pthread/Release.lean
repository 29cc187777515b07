import OsDesign.Pthread.Queues

/-!
What `release_thread` and `release_all_thread` make of the two queues. The
second loop stands on an element whose link `INSERT_TAIL` has just cleared, so
it ends at its first match, like the first loop.
-/
namespace OsDesign.Pthread

open TailQueue Virt

namespace Queues

variable {q q' : Queues} {rs ws xs ys : List ThreadId} {t : ThreadId} {h : Nat}

/-- The test of both loops. -/
def waitsOn (q : Queues) (h : Nat) (t : ThreadId) : Bool := h == q.mu t

theorem Links.removeWait (links : q.Links rs (xs ++ t :: ys)) {n : Nat} (few : xs.length ≤ n) :
    ∃ list head, remove n q.list q.gQueueWait t = some (list, head) ∧
      ({ q with list := list, gQueueWait := head } : Queues).Links rs (xs ++ ys) := by
  obtain ⟨list, head, hremoved, hqueue, hkept⟩ := links.wait.remove few
  refine ⟨list, head, hremoved, links.ready.congr ?_, hqueue, ?_⟩
  · intro a ha
    exact hkept a fun hxs => links.apart a ha (by simp [hxs])
  · intro a ha hw
    refine links.apart a ha ?_
    simp only [List.mem_append, List.mem_cons] at hw ⊢
    tauto

/-- A waiting thread goes behind the ready threads, and its link is cleared. -/
theorem Links.moveToReady (links : q.Links rs (xs ++ t :: ys)) (few : xs.length ≤ q.bound) :
    ∃ q', q.moveToReady t = .ok q' ∧ q'.Links (rs ++ [t]) (xs ++ ys) ∧ q'.list t = none ∧
      q'.current = q.current ∧ q.Frame q' := by
  obtain ⟨list, head, hremoved, hlinks⟩ := links.removeWait few
  have htr : t ∉ rs := fun hr => links.apart t hr (by simp)
  have htw : t ∉ xs ++ ys := (List.nodup_cons.mp (List.nodup_middle.mp links.wait.nodup)).1
  refine ⟨_, ?_, hlinks.insertTailReady htr htw, ?_, rfl, ⟨rfl, rfl, rfl⟩⟩
  · rw [Queues.moveToReady, hremoved]
  · exact hlinks.ready.insertTail_self htr

theorem releaseFirst_of_segment {n : Nat} {start : Option ThreadId}
    (segment : Segment q.list start ws none) (few : ws.length ≤ n) :
    releaseFirst h n start q =
      match ws.find? (q.waitsOn h) with
      | none => .ok q
      | some t => q.moveToReady t := by
  induction ws generalizing start n with
  | nil =>
      cases segment
      cases n <;> rfl
  | cons a ws ih =>
      obtain ⟨hstart, hrest⟩ := segment
      cases n with
      | zero => simp at few
      | succ n =>
          rw [hstart, releaseFirst]
          by_cases hmatch : h = q.mu a
          · have htest : q.waitsOn h a = true := by simp [waitsOn, hmatch]
            rw [if_pos hmatch, List.find?_cons_of_pos htest]
          · have htest : q.waitsOn h a = false := by simp [waitsOn, hmatch]
            rw [if_neg hmatch, ih hrest (Nat.le_of_succ_le_succ few),
              List.find?_cons_of_neg (by simp [htest])]

theorem releaseEach_of_none {n : Nat} : releaseEach h n none q = .ok q := by
  cases n <;> rfl

/-- Moving an element ends the loop over the wait queue. -/
theorem Links.releaseEach (links : q.Links rs (xs ++ ys)) {n : Nat} {start : Option ThreadId}
    (segment : Segment q.list start ys none) (few : ys.length ≤ n)
    (bounded : (xs ++ ys).length ≤ q.bound) :
    releaseEach h n start q =
      match ys.find? (q.waitsOn h) with
      | none => .ok q
      | some t => q.moveToReady t := by
  induction ys generalizing start n xs with
  | nil =>
      cases segment
      exact releaseEach_of_none
  | cons a ys ih =>
      obtain ⟨hstart, hrest⟩ := segment
      cases n with
      | zero => simp at few
      | succ n =>
          rw [hstart, Queues.releaseEach]
          by_cases hmatch : h = q.mu a
          · have htest : q.waitsOn h a = true := by simp [waitsOn, hmatch]
            have hxs : xs.length ≤ q.bound := by
              simp only [List.length_append] at bounded
              omega
            obtain ⟨q', hmoved, -, hlink, -⟩ := links.moveToReady hxs
            rw [if_pos hmatch, List.find?_cons_of_pos htest, hmoved]
            change Queues.releaseEach h n (q'.list a) q' = _
            rw [hlink, releaseEach_of_none]
            exact hmoved.symm
          · have htest : q.waitsOn h a = false := by simp [waitsOn, hmatch]
            have hassoc : xs ++ a :: ys = (xs ++ [a]) ++ ys := by simp
            rw [hassoc] at links bounded
            rw [if_neg hmatch, List.find?_cons_of_neg (by simp [htest])]
            exact ih links hrest (Nat.le_of_succ_le_succ few) bounded

/-- Both loops move the first waiting thread that passes the test. -/
theorem Links.release_cases (links : q.Links rs ws) (few : ws.length ≤ q.bound)
    (h : Nat) :
    ∃ q', releaseFirst h q.bound q.gQueueWait.first q = .ok q' ∧
      Queues.releaseEach h q.bound q.gQueueWait.first q = .ok q' ∧
      q'.Links (rs ++ (ws.find? (q.waitsOn h)).toList) (ws.eraseP (q.waitsOn h)) ∧
      q'.current = q.current ∧ q.Frame q' := by
  have hfirst := releaseFirst_of_segment (h := h) links.wait.segment few
  have hall : q.Links rs ([] ++ ws) := links
  have heach := hall.releaseEach (h := h) links.wait.segment few few
  rw [hfirst, heach]
  cases hfind : ws.find? (q.waitsOn h) with
  | none =>
      have hnone : ∀ a, a ∈ ws → ¬ q.waitsOn h a = true := List.find?_eq_none.mp hfind
      refine ⟨q, rfl, rfl, ?_, rfl, ⟨rfl, rfl, rfl⟩⟩
      rw [List.eraseP_of_forall_not hnone, Option.toList_none, List.append_nil]
      exact links
  | some t =>
      obtain ⟨-, as, bs, hsplit, herase, -⟩ := split_of_find? hfind
      rw [hsplit] at links
      have has : as.length ≤ q.bound := by
        rw [hsplit, List.length_append] at few
        omega
      obtain ⟨q', hmoved, hlinks, -, hcurrent, hframe⟩ := links.moveToReady has
      refine ⟨q', hmoved, hmoved, ?_, hcurrent, hframe⟩
      rw [herase]
      exact hlinks

/-- The element that is moved and the elements that stay are those of the queue. -/
theorem countP_find?_add_countP_eraseP (p test : ThreadId → Bool) (ws : List ThreadId) :
    (ws.find? p).toList.countP test + (ws.eraseP p).countP test = ws.countP test := by
  induction ws with
  | nil => rfl
  | cons b ws ih =>
      by_cases hb : p b = true
      · rw [List.find?_cons_of_pos hb, List.eraseP_cons_of_pos hb, Option.toList_some,
          List.countP_cons (l := ws), List.countP_singleton]
        omega
      · rw [List.find?_cons_of_neg hb, List.eraseP_cons_of_neg hb, List.countP_cons,
          List.countP_cons, ← ih]
        omega

/-- The element that is moved is the only one that goes. -/
theorem mem_eraseP_of_find? {p : ThreadId → Bool} {u : ThreadId} (nodup : ws.Nodup)
    (found : ws.find? p = some t) : u ∈ ws.eraseP p ↔ u ∈ ws ∧ u ≠ t := by
  obtain ⟨-, as, bs, hsplit, herase, -⟩ := split_of_find? found
  rw [hsplit] at nodup
  have hnot : t ∉ as ++ bs := (List.nodup_cons.mp (List.nodup_middle.mp nodup)).1
  rw [herase, hsplit, List.perm_middle.mem_iff, List.mem_cons]
  refine ⟨fun hu => ⟨.inr hu, fun same => hnot (same ▸ hu)⟩, fun hu => ?_⟩
  exact hu.1.resolve_left hu.2

theorem Links.release_perm {q₀ : Queues} (hcurrent : q.current = q₀.current) (h : Nat) :
    (q.members (rs ++ (ws.find? (q₀.waitsOn h)).toList) (ws.eraseP (q₀.waitsOn h))).Perm
      (q₀.members rs ws) := by
  refine List.perm_iff_count.mpr ?_
  intro a
  have := countP_find?_add_countP_eraseP (q₀.waitsOn h) (· == a) ws
  simp only [List.count, members, hcurrent, List.countP_append]
  omega

theorem Holds.wait_few (holds : q.Holds rs ws) : ws.length ≤ q.bound := by
  have := holds.few
  simp only [members, List.length_append] at this
  omega

/-- `release_thread` moves the first thread that waits on `h`. -/
theorem Holds.releaseThread (holds : q.Holds rs ws) (h : Nat) :
    ∃ q', q.releaseThread h = .ok q' ∧ q'.current = q.current ∧ q.Frame q' ∧
      q'.Holds (rs ++ (ws.find? (q.waitsOn h)).toList) (ws.eraseP (q.waitsOn h)) := by
  obtain ⟨q', hfirst, -, hlinks, hcurrent, hframe⟩ :=
    (holds.links true).release_cases holds.wait_few h
  refine ⟨q'.releaseQueueSpinlock, ?_, hcurrent,
    ⟨hframe.mu, hframe.gThreadsCnt, holds.unlocked.symm⟩,
    hlinks.holds holds hframe.gThreadsCnt (Links.release_perm hcurrent h)⟩
  rw [Queues.releaseThread, acquire_ok holds.unlocked]
  change Queues.releaseFirst h _ _ _ >>= _ = _
  rw [hfirst]
  rfl

/-- `release_all_thread` moves the first thread that waits on `h`, and no other. -/
theorem Holds.releaseAllThread (holds : q.Holds rs ws) (h : Nat) :
    ∃ q', q.releaseAllThread h = .ok q' ∧ q'.current = q.current ∧ q.Frame q' ∧
      q'.Holds (rs ++ (ws.find? (q.waitsOn h)).toList) (ws.eraseP (q.waitsOn h)) := by
  obtain ⟨q', -, heach, hlinks, hcurrent, hframe⟩ :=
    (holds.links true).release_cases holds.wait_few h
  refine ⟨q'.releaseQueueSpinlock, ?_, hcurrent,
    ⟨hframe.mu, hframe.gThreadsCnt, holds.unlocked.symm⟩,
    hlinks.holds holds hframe.gThreadsCnt (Links.release_perm hcurrent h)⟩
  rw [Queues.releaseAllThread, acquire_ok holds.unlocked]
  change Queues.releaseEach h _ _ _ >>= _ = _
  rw [heach]
  rfl

end Queues

end OsDesign.Pthread
