import OsDesign.Shm.Pages

/-!
`shalloc` and `shfree` access by access: every read and write of `g_share` is a
step of its own, at an `int` index, and one outside the map is a fault. The
functions are those of the page model, whatever the map, the count and the arguments.
-/
namespace OsDesign.Shm

open Loops Tally Virt

def readShare (gShare : Nat → Bool) (i : Int) : Except Fault Bool :=
  if 0 ≤ i ∧ i < maxSharePages then .ok (gShare i.toNat) else .error .outOfBounds

def writeShare (gShare : Nat → Bool) (i : Int) (value : Bool) : Except Fault (Nat → Bool) :=
  if 0 ≤ i ∧ i < maxSharePages then .ok (Function.update gShare i.toNat value)
  else .error .outOfBounds

namespace Accesses

/-- `while (1 == g_share[i]) i++`; the loop has no bound, and with more turns than
pages it does not run out of them. -/
def skipMarked (gShare : Nat → Bool) : Nat → Int → Except Fault Int
  | 0, i => .ok i
  | turns + 1, i =>
      match readShare gShare i with
      | .error fault => .error fault
      | .ok true => skipMarked gShare turns (i + 1)
      | .ok false => .ok i

/-- The counting loop with `turns` indices left. -/
def countFree (gShare : Nat → Bool) (n : Int) : Nat → Int → Int → Except Fault (Int × Int)
  | 0, i, cnt => .ok (i, cnt)
  | turns + 1, i, cnt =>
      match readShare gShare i with
      | .error fault => .error fault
      | .ok marked =>
          let cnt := if marked = false then cnt + 1 else cnt
          if n ≤ cnt then .ok (i, cnt) else countFree gShare n turns (i + 1) cnt

/-- The loops that write one value to consecutive pages. -/
def setRange (value : Bool) : Nat → Int → (Nat → Bool) → Except Fault (Nat → Bool)
  | 0, _, gShare => .ok gShare
  | turns + 1, j, gShare =>
      match writeShare gShare j value with
      | .error fault => .error fault
      | .ok gShare => setRange value turns (j + 1) gShare

def shalloc (size : BitVec 64) (s : Charmap) : Except Fault (Charmap × Option Nat) :=
  let n := (pageCount size).toInt
  if n ≤ 0 ∨ s.room < n then .ok (s, none)
  else
    match skipMarked s.gShare (maxSharePages + 1) 0 with
    | .error fault => .error fault
    | .ok first =>
        match countFree s.gShare n (maxSharePages - first).toNat first 0 with
        | .error fault => .error fault
        | .ok (i, cnt) =>
            if cnt < n then .ok (s, none)
            else
              match setRange true cnt.toNat (i + 1 - cnt) s.gShare with
              | .error fault => .error fault
              | .ok gShare =>
                  .ok (⟨gShare, s.gShareCount + BitVec.ofInt 32 cnt⟩,
                    some (virtualShareStart + (i + 1 - cnt).toNat * pageSize))

def shfree (ptr : Nat) (size : BitVec 64) (s : Charmap) : Except Fault Charmap :=
  let n := (pageCount size).toInt
  if s.room < n then .ok s
  else if ptr < virtualShareStart ∨ virtualShareEnd < ptr then .ok s
  else
    let start := (ptr - virtualShareStart) / pageSize
    match setRange false n.toNat start s.gShare with
    | .error fault => .error fault
    | .ok gShare => .ok ⟨gShare, s.gShareCount - pageCount size⟩

variable {gShare : Nat → Bool} {turns i j start : Nat} {size : BitVec 64} {s : Charmap}

theorem readShare_of_lt (h : i < maxSharePages) : readShare gShare i = .ok (gShare i) :=
  if_pos ⟨Int.natCast_nonneg i, Int.ofNat_lt.mpr h⟩

theorem readShare_of_le (h : maxSharePages ≤ i) : readShare gShare i = .error .outOfBounds := by
  refine if_neg ?_
  omega

/-- The unbounded search finds the first unmarked page, or reads past the last. -/
theorem skipMarked_eq (marked : ∀ j, j < i → gShare j = true) (hi : i ≤ maxSharePages)
    (enough : maxSharePages < i + turns) :
    skipMarked gShare turns i =
      match firstIndex maxSharePages (fun j => !gShare j) with
      | none => .error .outOfBounds
      | some first => .ok first := by
  induction turns generalizing i with
  | zero => omega
  | succ turns ih =>
      by_cases inside : i < maxSharePages
      · cases hpage : gShare i with
        | true =>
            have marked' : ∀ j, j < i + 1 → gShare j = true := by
              intro j hj
              by_cases same : j = i
              · rw [same, hpage]
              · exact marked j (by omega)
            rw [skipMarked, readShare_of_lt inside, hpage]
            exact @ih (i + 1) marked' inside (by omega)
        | false =>
            have found : firstIndex maxSharePages (fun j => !gShare j) = some i := by
              refine firstIndex_eq_some.mpr ⟨by simp [hpage], inside, ?_⟩
              intro j hj
              simp [marked j hj]
            rw [skipMarked, readShare_of_lt inside, hpage, found]
      · have none : firstIndex maxSharePages (fun j => !gShare j) = none := by
          refine firstIndex_eq_none.mpr ?_
          intro j hj
          simp [marked j (by omega)]
        rw [skipMarked, readShare_of_le (by omega), none]

/-- The counting loop stays below `MAX_SHARE_PAGES` by its own test. -/
theorem countFree_eq (n : Int) (cnt : Nat) (inside : i + turns ≤ maxSharePages) :
    countFree gShare n turns i cnt =
      .ok ((Shm.countFree gShare n turns i cnt).1, (Shm.countFree gShare n turns i cnt).2) := by
  induction turns generalizing i cnt with
  | zero => rfl
  | succ turns ih =>
      let cnt' := if gShare i = false then cnt + 1 else cnt
      have hturn : Shm.countFree gShare n (turns + 1) i cnt =
          if n ≤ (cnt' : Int) then (i, cnt') else Shm.countFree gShare n turns (i + 1) cnt' := rfl
      have hcnt : (if gShare i = false then (cnt : Int) + 1 else cnt) = (cnt' : Int) := by
        simp only [cnt']
        split <;> simp
      rw [countFree, readShare_of_lt (by omega), hturn]
      simp only [hcnt]
      by_cases enough : n ≤ (cnt' : Int)
      · rw [if_pos enough, if_pos enough]
      · rw [if_neg enough, if_neg enough]
        exact @ih (i + 1) cnt' (by omega)

/-- The writes of a range, all of them inside or one of them past the last page. -/
theorem setRange_eq (value : Bool) (hstart : start ≤ maxSharePages) :
    setRange value turns start gShare =
      if maxSharePages < start + turns then .error .outOfBounds
      else .ok (fill gShare start turns value) := by
  induction turns generalizing start gShare with
  | zero => rw [setRange, fill_zero, if_neg (by omega)]
  | succ turns ih =>
      by_cases inside : start < maxSharePages
      · have hwrite : writeShare gShare start value =
            .ok (Function.update gShare start value) :=
          if_pos ⟨Int.natCast_nonneg start, Int.ofNat_lt.mpr inside⟩
        have hfill : fill (Function.update gShare start value) (start + 1) turns value =
            fill gShare start (turns + 1) value := by
          funext k
          by_cases hk : k = start
          · rw [fill_of_notMem value (by omega), fill_of_mem value (by omega), hk]
            exact Function.update_self start value gShare
          · by_cases hrange : start + 1 ≤ k ∧ k < start + 1 + turns
            · rw [fill_of_mem value hrange, fill_of_mem value (by omega)]
            · rw [fill_of_notMem value hrange, fill_of_notMem value (by omega)]
              exact Function.update_of_ne hk value gShare
        rw [setRange, hwrite]
        have next := @ih (Function.update gShare start value) (start + 1) inside
        rw [hfill] at next
        have hsum : start + 1 + turns = start + (turns + 1) := by omega
        rw [hsum] at next
        exact next
      · have hwrite : writeShare gShare start value = .error .outOfBounds := by
          refine if_neg ?_
          omega
        rw [setRange, hwrite, if_pos (by omega)]

/-- `shalloc` reads and writes what the page model says. -/
theorem shalloc_eq (size : BitVec 64) (s : Charmap) : shalloc size s = Shm.shalloc size s := by
  rw [shalloc, Shm.shalloc]
  by_cases guard : (pageCount size).toInt ≤ 0 ∨ s.room < (pageCount size).toInt
  · simp only [if_pos guard]
  · obtain ⟨n, hn⟩ := Int.eq_ofNat_of_zero_le (by omega : 0 ≤ (pageCount size).toInt)
    have pos : 0 < n := by omega
    have skipped := @skipMarked_eq s.gShare (maxSharePages + 1) 0 (fun j hj => by omega) (by omega)
      (by omega)
    change skipMarked s.gShare (maxSharePages + 1) 0 = _ at skipped
    simp only [skipped, hn]
    cases hfirst : firstIndex maxSharePages (fun j => !s.gShare j) with
    | none => rfl
    | some first =>
        have hlt := (firstIndex_eq_some.mp hfirst).2.1
        have hturns : ((maxSharePages : Int) - first).toNat = maxSharePages - first := by omega
        have counted := @countFree_eq s.gShare (maxSharePages - first) first n 0 (by omega)
        change countFree s.gShare n (maxSharePages - first) first 0 = _ at counted
        simp only [hturns, counted]
        rcases @countFree_cases s.gShare n (maxSharePages - first) first 0 pos with
          ⟨last, hloop, hge, hbelow, -, hcard⟩ | ⟨total, hloop, hfew, -⟩
        · have within : n ≤ last + 1 := by
            have hsub := Finset.card_filter_le (Finset.Ico first (last + 1))
              fun k => s.gShare k = false
            rw [Nat.card_Ico] at hsub
            change (freePages s.gShare first (last + 1)).card ≤ _ at hsub
            omega
          have hfrom : ((last : Int) + 1 - n) = ((last + 1 - n : Nat) : Int) := by omega
          have written := @setRange_eq s.gShare n (last + 1 - n) true (by omega)
          rw [if_neg (by omega)] at written
          simp only [hloop, hfrom, written, Int.toNat_natCast]
          rfl
        · simp only [hloop, Int.ofNat_lt.mpr hfew, if_true]

theorem shfree_eq (ptr : Nat) (size : BitVec 64) (s : Charmap) :
    shfree ptr size s = Shm.shfree ptr size s := by
  rw [shfree, Shm.shfree]
  by_cases large : s.room < (pageCount size).toInt
  · simp only [if_pos large]
  · by_cases outside : ptr < virtualShareStart ∨ virtualShareEnd < ptr
    · simp only [if_neg large, if_pos outside]
    · have hstart : (ptr - virtualShareStart) / pageSize ≤ maxSharePages := by
        rw [maxSharePages_eq]
        simp only [virtualShareStart, virtualShareEnd, pageSize] at outside ⊢
        omega
      have written := @setRange_eq s.gShare (pageCount size).toInt.toNat _ false hstart
      simp only [if_neg large, if_neg outside, written]
      by_cases past : maxSharePages <
          (ptr - virtualShareStart) / pageSize + (pageCount size).toInt.toNat
      · simp only [if_pos past]
      · simp only [if_neg past]

end Accesses

end OsDesign.Shm
