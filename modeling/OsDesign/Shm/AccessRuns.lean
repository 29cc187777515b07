import OsDesign.Lib.Runs
import OsDesign.Shm.Accesses

/-!
Runs of `shalloc` and `shfree` with any sizes and any pointers. The unbounded search of
`shalloc` needs the count to be no smaller than the number of marked pages; `shfree`,
which lowers the count whatever it clears, is the only call that can break this.
-/
namespace OsDesign.Shm

open Loops Tally Virt Runs

inductive ShareCall
  | shalloc (size : BitVec 64)
  | shfree (ptr : Nat) (size : BitVec 64)

def ShareCall.IsShalloc : ShareCall → Prop
  | .shalloc _ => True
  | .shfree _ _ => False

namespace Charmap

def next (s : Charmap) : ShareCall → Except Fault Charmap
  | .shalloc size => (Accesses.shalloc size s).map Prod.fst
  | .shfree ptr size => Accesses.shfree ptr size s

def Step (s : Charmap) (c : ShareCall) (s' : Charmap) : Prop := s.next c = .ok s'

def CountInRange (s : Charmap) : Prop :=
  0 ≤ s.gShareCount.toInt ∧ s.gShareCount.toInt ≤ maxSharePages

/-- Every access of the call is inside `g_share`, and it leaves the count in range. -/
def Safe (s : Charmap) (c : ShareCall) : Prop := ∃ s', s.Step c s' ∧ s'.CountInRange

/-- The tests of `shfree` that return at once. -/
def TurnedAway (s : Charmap) (ptr : Nat) (size : BitVec 64) : Prop :=
  s.room < (pageCount size).toInt ∨ ptr < virtualShareStart ∨ virtualShareEnd < ptr

/-- The pages that `shfree` clears. -/
def freed (ptr : Nat) (size : BitVec 64) : Nat × Nat :=
  ((ptr - virtualShareStart) / pageSize, (pageCount size).toInt.toNat)

/-- The pages to clear are in the map, the count stays in range, and no more of the
pages are unmarked than the count is ahead of the marks. -/
structure Covered (s : Charmap) (ptr : Nat) (size : BitVec 64) : Prop where
  inside : (freed ptr size).1 + (freed ptr size).2 ≤ maxSharePages
  count_le : s.gShareCount.toInt - (pageCount size).toInt ≤ maxSharePages
  marks : ((freePages s.gShare (freed ptr size).1
      ((freed ptr size).1 + (freed ptr size).2)).card : Int) ≤
    s.gShareCount.toInt - tally maxSharePages s.gShare

/-- The calls that leave the count ahead of the marks: of `shfree` only those that are
turned away or covered. -/
def Keeps (s : Charmap) : ShareCall → Prop
  | .shalloc _ => True
  | .shfree ptr size => s.TurnedAway ptr size ∨ s.Covered ptr size

/-- The invariant of the runs: the count is not behind the marks. -/
structure Bounded (s : Charmap) : Prop where
  covers : (tally maxSharePages s.gShare : Int) ≤ s.gShareCount.toInt
  count_le : s.gShareCount.toInt ≤ maxSharePages

variable {s s' : Charmap} {size : BitVec 64} {ptr start m : Nat} {gShare : Nat → Bool}

theorem CountInRange.toNat (h : s.CountInRange) :
    (s.gShareCount.toNat : Int) = s.gShareCount.toInt ∧ s.gShareCount.toNat ≤ maxSharePages := by
  have hlt := s.gShareCount.isLt
  obtain ⟨hpos, hle⟩ := h
  rw [BitVec.toInt_eq_toNat_cond] at hpos hle ⊢
  split at hpos <;> omega

theorem CountInRange.room (h : s.CountInRange) :
    s.room = maxSharePages - s.gShareCount.toInt := by
  obtain ⟨hnat, hle⟩ := h.toNat
  rw [room_of_le hle]
  omega

theorem Bounded.inRange (bounded : s.Bounded) : s.CountInRange := by
  have := bounded.covers
  exact ⟨by omega, bounded.count_le⟩

theorem tally_fill_set_le (hm : start + m ≤ maxSharePages) :
    tally maxSharePages (fill gShare start m true) ≤ tally maxSharePages gShare + m := by
  induction m with
  | zero => rw [fill_zero]; omega
  | succ m ih =>
      have before := ih (by omega)
      rw [fill_succ]
      cases hlast : fill gShare start m true (start + m) with
      | false =>
          rw [tally_set (by omega) hlast]
          omega
      | true =>
          rw [Function.update_eq_self_iff.mpr hlast.symm]
          omega

theorem card_freePages_right {i j : Nat} (h : i ≤ j) :
    (freePages gShare i (j + 1)).card =
      (freePages gShare i j).card + if gShare j = false then 1 else 0 := by
  have notMem : j ∉ freePages gShare i j := by simp [freePages]
  have hsplit := Finset.insert_Ico_right_eq_Ico_succ h
  rw [freePages, ← Order.succ_eq_add_one, ← hsplit, Finset.filter_insert]
  by_cases hj : gShare j = false
  · rw [if_pos hj, if_pos hj]
    exact Finset.card_insert_of_notMem notMem
  · rw [if_neg hj, if_neg hj]
    rfl

/-- Clearing pages takes from the marks those that were marked. -/
theorem tally_fill_clear_add (hm : start + m ≤ maxSharePages) :
    tally maxSharePages (fill gShare start m false) + m =
      tally maxSharePages gShare + (freePages gShare start (start + m)).card := by
  induction m with
  | zero =>
      rw [fill_zero, Nat.add_zero, Nat.add_zero, freePages_self]
      rfl
  | succ m ih =>
      have before := ih (by omega)
      have hkept : fill gShare start m false (start + m) = gShare (start + m) :=
        fill_of_notMem false (by omega)
      have hright := @card_freePages_right gShare _ _ (Nat.le_add_right start m)
      rw [fill_succ, ← Nat.add_assoc, ← Nat.add_assoc, hright]
      cases hlast : gShare (start + m) with
      | true =>
          have cleared := tally_clear (by omega : start + m < maxSharePages) (hkept.trans hlast)
          simp only [Bool.true_eq_false, if_false]
          omega
      | false =>
          rw [Function.update_eq_self_iff.mpr (hkept.trans hlast).symm]
          simp only [if_true]
          omega

theorem toInt_count_sub (h : s.CountInRange) (c : BitVec 32) (gShare : Nat → Bool) :
    CountInRange ⟨gShare, s.gShareCount - c⟩ ↔
      0 ≤ s.gShareCount.toInt - c.toInt ∧ s.gShareCount.toInt - c.toInt ≤ maxSharePages := by
  have hlow := BitVec.le_toInt c
  have hhigh := BitVec.toInt_lt (x := c)
  obtain ⟨hpos, hle⟩ := h
  have hmax := maxSharePages_eq
  simp only [CountInRange, BitVec.toInt_sub, Int.bmod_def]
  omega

/-- A request for `n` pages that finds them. -/
theorem CountInRange.serve {n : Nat} (range : s.CountInRange)
    (hn : (pageCount size).toInt = (n : Nat)) (pos : 0 < n)
    (fits : s.gShareCount.toInt + n ≤ maxSharePages)
    (enough : n ≤ maxSharePages - tally maxSharePages s.gShare) :
    ∃ last gShareCount, last < maxSharePages ∧ n ≤ last + 1 ∧ s.gShare last = false ∧
      s.Step (.shalloc size) ⟨fill s.gShare (last + 1 - n) n true, gShareCount⟩ ∧
      gShareCount.toInt = s.gShareCount.toInt + n := by
  have hmax := maxSharePages_eq
  have hroom := range.room
  obtain ⟨_, last, -, -, -, hlast, hfree, -, hwithin, hok⟩ :=
    shalloc_served (s := s) hn pos (by omega) enough
  refine ⟨last, s.gShareCount + BitVec.ofNat 32 n, hlast, hwithin, hfree, ?_, ?_⟩
  · rw [Step, next, Accesses.shalloc_eq, hok]
    rfl
  · have hword : (BitVec.ofNat 32 n).toInt = n := by
      rw [BitVec.toInt_eq_toNat_cond, BitVec.toNat_ofNat]
      omega
    obtain ⟨hpos, hle⟩ := range
    rw [BitVec.toInt_add, hword, Int.bmod_def]
    omega

/-- `shalloc` searches a map with an unmarked page, or does not search. -/
theorem Bounded.shalloc (bounded : s.Bounded) (size : BitVec 64) :
    ∃ s', s.Step (.shalloc size) s' ∧ s'.Bounded := by
  have hroom := bounded.inRange.room
  have hcovers := bounded.covers
  by_cases guard : (pageCount size).toInt ≤ 0 ∨ s.room < (pageCount size).toInt
  · refine ⟨s, ?_, bounded⟩
    rw [Step, next, Accesses.shalloc_eq, shalloc_of_guard guard]
    rfl
  · obtain ⟨n, hn⟩ := Int.eq_ofNat_of_zero_le (by omega : 0 ≤ (pageCount size).toInt)
    obtain ⟨last, count, hlast, hwithin, -, step, hcount⟩ :=
      bounded.inRange.serve hn (by omega) (by omega) (by omega)
    have marked := @tally_fill_set_le (last + 1 - n) n s.gShare (by omega)
    refine ⟨_, step, ?_, ?_⟩
    · change (tally maxSharePages (fill s.gShare (last + 1 - n) n true) : Int) ≤ count.toInt
      omega
    · change count.toInt ≤ _
      omega

theorem shfree_turned_away (away : s.TurnedAway ptr size) : s.Step (.shfree ptr size) s := by
  rw [Step, next, Accesses.shfree_eq, Shm.shfree]
  by_cases large : s.room < (pageCount size).toInt
  · simp only [if_pos large]
  · simp only [if_neg large, if_pos (away.resolve_left large)]

/-- What `shfree` does behind its two tests. -/
theorem shfree_passed (passed : ¬ s.TurnedAway ptr size) :
    s.next (.shfree ptr size) =
      if maxSharePages < (freed ptr size).1 + (freed ptr size).2 then .error .outOfBounds
      else .ok ⟨fill s.gShare (freed ptr size).1 (freed ptr size).2 false,
        s.gShareCount - pageCount size⟩ := by
  obtain ⟨fits, inside⟩ := not_or.mp passed
  rw [next, Accesses.shfree_eq, Shm.shfree]
  simp only [if_neg fits, if_neg inside]
  rfl

/-- The count behind `shfree`, where it stays in range. -/
theorem toInt_of_inRange (h : s.CountInRange) {c : BitVec 32} {gShare : Nat → Bool}
    (after : CountInRange ⟨gShare, s.gShareCount - c⟩) :
    (s.gShareCount - c).toInt = s.gShareCount.toInt - c.toInt := by
  have hmax := maxSharePages_eq
  obtain ⟨hpos, hle⟩ := (toInt_count_sub h c gShare).mp after
  rw [BitVec.toInt_sub, Int.bmod_def]
  omega

theorem card_freePages_le (gShare : Nat → Bool) (start m : Nat) :
    (freePages gShare start (start + m)).card ≤ m := by
  have hle := Finset.card_filter_le (Finset.Ico start (start + m)) fun k => gShare k = false
  rw [Nat.card_Ico, Nat.add_sub_cancel_left] at hle
  exact hle

/-- A `shfree` behind its tests keeps the count ahead of the marks exactly if the call is
covered. -/
theorem Bounded.shfree_iff (bounded : s.Bounded) (passed : ¬ s.TurnedAway ptr size) :
    (∃ s', s.Step (.shfree ptr size) s' ∧ s'.Bounded) ↔ s.Covered ptr size := by
  have hcovers := bounded.covers
  have hfew := card_freePages_le s.gShare (freed ptr size).1 (freed ptr size).2
  have hpages : (freed ptr size).2 = (pageCount size).toInt.toNat := rfl
  constructor
  · rintro ⟨s', step, after⟩
    rw [Step, shfree_passed passed] at step
    split at step
    · cases step
    · rename_i inside
      cases step
      have hcount := toInt_of_inRange bounded.inRange after.inRange
      have hmarks := @tally_fill_clear_add _ _ s.gShare (Nat.not_lt.mp inside)
      have hle := after.count_le
      have hahead := after.covers
      simp only at hle hahead
      exact ⟨Nat.not_lt.mp inside, by omega, by omega⟩
  · intro covered
    have hmarks := @tally_fill_clear_add _ _ s.gShare covered.inside
    have hle := covered.count_le
    have hahead := covered.marks
    have range : CountInRange ⟨fill s.gShare (freed ptr size).1 (freed ptr size).2 false,
        s.gShareCount - pageCount size⟩ :=
      (toInt_count_sub bounded.inRange _ _).mpr ⟨by omega, hle⟩
    have hcount := toInt_of_inRange bounded.inRange range
    refine ⟨_, ?_, ?_, range.2⟩
    · rw [Step, shfree_passed passed, if_neg (Nat.not_lt.mpr covered.inside)]
    · simp only
      omega

/-- From a count behind the marks, requests for one page lead to a search past the map. -/
theorem exists_unsafe_of_behind (range : s.CountInRange)
    (behind : s.gShareCount.toInt < tally maxSharePages s.gShare) :
    ∃ cs s', Steps (fun _ c => c.IsShalloc) Step s cs s' ∧ ¬ s'.Safe (.shalloc 1#64) := by
  have one : (pageCount 1#64).toInt = (1 : Nat) := by decide
  have hle := tally_le maxSharePages s.gShare
  induction hleft : maxSharePages - tally maxSharePages s.gShare generalizing s with
  | zero =>
      refine ⟨[], s, .nil s, ?_⟩
      rintro ⟨s', step, -⟩
      have full : firstIndex maxSharePages (fun i => !s.gShare i) = none := by
        refine firstIndex_eq_none.mpr ?_
        intro i hi
        have hset : s.gShare i = true := all_set (by omega : maxSharePages ≤ tally _ s.gShare) hi
        simp [hset]
      have hroom := range.room
      have opened : ¬ ((pageCount 1#64).toInt ≤ 0 ∨ s.room < (pageCount 1#64).toInt) := by omega
      rw [Step, next, Accesses.shalloc_eq, Shm.shalloc] at step
      simp only [if_neg opened, full] at step
      cases step
  | succ left ih =>
      obtain ⟨last, count, hlast, -, hfree, step, hcount⟩ :=
        range.serve one (by decide) (by omega) (by omega)
      have more : tally maxSharePages (fill s.gShare (last + 1 - 1) 1 true) =
          tally maxSharePages s.gShare + 1 := by
        refine tally_fill_set (by omega) ?_
        intro k hlow hhigh
        obtain rfl : k = last := by omega
        exact hfree
      have hmost := tally_le maxSharePages (fill s.gShare (last + 1 - 1) 1 true)
      obtain ⟨hpos, -⟩ := range
      have range' : CountInRange ⟨fill s.gShare (last + 1 - 1) 1 true, count⟩ := by
        refine ⟨?_, ?_⟩
        · change 0 ≤ count.toInt
          omega
        · change count.toInt ≤ _
          omega
      obtain ⟨cs, s', run, hunsafe⟩ := ih range' (by simp only; omega) hmost (by simp only; omega)
      have shalloc : ShareCall.IsShalloc (.shalloc 1#64) := trivial
      exact ⟨_, s', .cons shalloc step run, hunsafe⟩

/-- What the calls allow after a call: it is safe, and so is every request after any
more requests. -/
def SafeAhead (s : Charmap) (c : ShareCall) : Prop :=
  s.Safe c ∧ ∀ s' cs s'', s.Step c s' → Steps (fun _ c => c.IsShalloc) Step s' cs s'' →
    ∀ size, s''.Safe (.shalloc size)

theorem Bounded.step (bounded : s.Bounded) {c : ShareCall} (keeps : s.Keeps c) :
    ∃ s', s.Step c s' ∧ s'.Bounded := by
  cases c with
  | shalloc size => exact bounded.shalloc size
  | shfree ptr size =>
      by_cases away : s.TurnedAway ptr size
      · exact ⟨s, shfree_turned_away away, bounded⟩
      · exact (bounded.shfree_iff away).mpr (keeps.resolve_left away)

theorem Step.unique {c : ShareCall} {s'' : Charmap} (h : s.Step c s') (h' : s.Step c s'') :
    s' = s'' :=
  Except.ok.inj (h.symm.trans h')

theorem Bounded.safe (bounded : s.Bounded) {c : ShareCall} (keeps : s.Keeps c) : s.Safe c := by
  obtain ⟨s', step, after⟩ := bounded.step keeps
  exact ⟨s', step, after.inRange⟩

/-- In a run whose frees are turned away or covered, every access of every call is in
the map and the count is in range; the first free that is not makes itself or a later
request fail. -/
theorem keeps_iff_safe (reach : Reachable (fun s => s = shinit) Keeps Step s) :
    s.CountInRange ∧ ∀ c, s.Keeps c ↔ s.SafeAhead c := by
  have bounded : s.Bounded := by
    refine reach.invariant Bounded ?_ ?_
    · rintro s rfl
      refine ⟨?_, ?_⟩
      · change ((tally maxSharePages fun _ => false : Nat) : Int) ≤ 0
        rw [tally_none]
        rfl
      · rw [maxSharePages_eq]
        decide
    · intro s c s' keeps step before
      obtain ⟨s'', step', after⟩ := before.step keeps
      exact step'.unique step ▸ after
  refine ⟨bounded.inRange, ?_⟩
  intro c
  constructor
  · intro keeps
    refine ⟨bounded.safe keeps, ?_⟩
    intro s' cs s'' step run size
    obtain ⟨t, step', after⟩ := bounded.step keeps
    obtain rfl := step'.unique step
    have kept : s''.Bounded := by
      refine run.preserves Bounded ?_ after
      intro s c s' hshalloc step before
      cases c with
      | shalloc size =>
          obtain ⟨t, step', after⟩ := before.shalloc size
          exact step'.unique step ▸ after
      | shfree ptr size => cases hshalloc
    exact kept.safe (c := .shalloc size) trivial
  · rintro ⟨⟨s', step, range⟩, ahead⟩
    cases c with
    | shalloc size => trivial
    | shfree ptr size =>
        by_cases away : s.TurnedAway ptr size
        · exact .inl away
        · refine .inr ((bounded.shfree_iff away).mp ⟨s', step, ?_, range.2⟩)
          by_contra behind
          obtain ⟨cs, s'', run, hunsafe⟩ := exists_unsafe_of_behind range (by omega)
          exact hunsafe (ahead s' cs s'' step run 1#64)

instance (s : Charmap) (ptr : Nat) (size : BitVec 64) : Decidable (s.TurnedAway ptr size) :=
  inferInstanceAs (Decidable (_ ∨ _))

theorem covered_iff : s.Covered ptr size ↔
    (freed ptr size).1 + (freed ptr size).2 ≤ maxSharePages ∧
      s.gShareCount.toInt - (pageCount size).toInt ≤ maxSharePages ∧
      ((freePages s.gShare (freed ptr size).1
        ((freed ptr size).1 + (freed ptr size).2)).card : Int) ≤
          s.gShareCount.toInt - tally maxSharePages s.gShare :=
  ⟨fun h => ⟨h.inside, h.count_le, h.marks⟩, fun h => ⟨h.1, h.2.1, h.2.2⟩⟩

instance (s : Charmap) (ptr : Nat) (size : BitVec 64) : Decidable (s.Covered ptr size) :=
  decidable_of_iff _ covered_iff.symm

instance (s : Charmap) : DecidablePred s.Keeps
  | .shalloc _ => .isTrue trivial
  | .shfree ptr size => inferInstanceAs (Decidable (s.TurnedAway ptr size ∨ s.Covered ptr size))

/-- A state that calls which are turned away or covered lead to, found by evaluation. -/
theorem exists_kept (P : Charmap → Prop) [DecidablePred P] (cs : List ShareCall)
    (h : (run (fun s c => decide (s.Keeps c)) (fun s c => (s.next c).toOption) shinit cs).any
      (fun s => decide (P s)) = true) :
    ∃ s, Reachable (fun s => s = shinit) Keeps Step s ∧ P s := by
  obtain ⟨s, taken, hP⟩ := exists_steps_of_run Keeps _ shinit P cs h
  refine ⟨s, ⟨shinit, cs, rfl, taken.mapStep ?_⟩, hP⟩
  intro s c s' permitted hnext
  refine ⟨permitted, ?_⟩
  cases h : s.next c with
  | error fault => simp [h, Except.toOption] at hnext
  | ok t =>
      simp only [h, Except.toOption, Option.some.injEq] at hnext
      exact hnext ▸ h

/-- Two pages are allocated and given back, and one is allocated again. It can be
given back safely; two pages at the last one cannot. -/
theorem keeps_iff_safe_freed :
    ∃ s : Charmap, s.gShareCount = 1#32 ∧ s.CountInRange ∧
      s.SafeAhead (.shfree virtualShareStart 4096#64) ∧ s.SafeAhead (.shalloc 16384#64) ∧
      ¬ s.SafeAhead (.shfree (virtualShareStart + 3 * pageSize) 8192#64) := by
  obtain ⟨s, reach, hcount, kept, lost⟩ := exists_kept
    (fun s => s.gShareCount = 1#32 ∧ s.Keeps (.shfree virtualShareStart 4096#64) ∧
      ¬ s.Keeps (.shfree (virtualShareStart + 3 * pageSize) 8192#64))
    [.shalloc 8192#64, .shfree virtualShareStart 8192#64, .shalloc 4096#64] (by decide +kernel)
  have safe := keeps_iff_safe reach
  exact ⟨s, hcount, safe.1, (safe.2 _).mp kept, (safe.2 _).mp trivial,
    fun ahead => lost ((safe.2 _).mpr ahead)⟩

/-- Giving back two pages at the last one writes past the map, and giving back one that
was never allocated makes the count negative. -/
theorem shfree_leaves_map :
    shinit.next (.shfree (virtualShareStart + 3 * pageSize) 8192#64) = .error .outOfBounds ∧
      (shinit.next (.shfree virtualShareStart 4096#64)).toOption.map
        (fun s => s.gShareCount.toInt) = some (-1) ∧
      ¬ ∀ s c, Reachable (fun s => s = shinit) (fun _ _ => True) Step s → s.Safe c := by
  have passed : ¬ shinit.TurnedAway (virtualShareStart + 3 * pageSize) 8192#64 := by
    have hroom : shinit.room = 4 := by
      rw [Charmap.room, maxSharePages_eq]
      decide
    have hcount : (pageCount 8192#64).toInt = 2 := by decide
    simp only [TurnedAway, hroom, hcount, virtualShareStart, virtualShareEnd, pageSize]
    omega
  have past : shinit.next (.shfree (virtualShareStart + 3 * pageSize) 8192#64) =
      .error .outOfBounds := by
    rw [shfree_passed passed, if_pos]
    rw [maxSharePages_eq]
    decide
  refine ⟨past, by decide +kernel, ?_⟩
  intro safe
  obtain ⟨s', step, -⟩ :=
    safe shinit (.shfree (virtualShareStart + 3 * pageSize) 8192#64) (.start rfl)
  rw [Step, past] at step
  cases step

end Charmap

end OsDesign.Shm
