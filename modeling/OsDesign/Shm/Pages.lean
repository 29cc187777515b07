import OsDesign.Lib.Tally
import OsDesign.Virt.Memory
import Mathlib.Order.Interval.Finset.SuccPred
import Mathlib.Data.Nat.SuccPred
import Mathlib.Order.Interval.Finset.Nat

/-!
The share section: `shm.c`. One flag per page, and a separate count of the pages
marked. `shalloc` counts free pages from the first one on and marks as many
pages as it counted, ending at the last page it looked at.
-/
namespace OsDesign.Shm

open Loops Tally Virt

/-- `MAX_SHARE_PAGES` -/
@[irreducible] def maxSharePages : Nat :=
  (miRoundToSize (BitVec.ofNat 64 (virtualShareEnd - virtualShareStart))
    (BitVec.ofNat 64 pageSize)).toNat / pageSize

theorem maxSharePages_eq : maxSharePages = 4 := by
  rw [maxSharePages]
  decide

/-- An access to `g_share` outside its bounds. -/
inductive Fault
  | outOfBounds
  deriving DecidableEq

/-- `g_share` and `g_share_count`, an `int`. -/
structure Charmap where
  gShare : Nat → Bool
  gShareCount : BitVec 32

/-- The state `shinit` leaves. -/
def shinit : Charmap := ⟨fun _ => false, 0⟩

/-- `n = MI_ROUND_TO_SIZE(size, PAGE_SIZE) / PAGE_SIZE`, computed in `size_t` and
stored in an `int`. -/
def pageCount (size : BitVec 64) : BitVec 32 :=
  (miRoundToSize size (BitVec.ofNat 64 pageSize) / BitVec.ofNat 64 pageSize).setWidth 32

/-- `MAX_SHARE_PAGES - g_share_count` -/
def Charmap.room (s : Charmap) : Int := (BitVec.ofNat 32 maxSharePages - s.gShareCount).toInt

/-- The counting loop of `shalloc` with `turns` indices left, at index `i`: the
values of `i` and `cnt` behind it. -/
def countFree (gShare : Nat → Bool) (n : Int) : Nat → Nat → Nat → Nat × Nat
  | 0, i, cnt => (i, cnt)
  | turns + 1, i, cnt =>
      let cnt := if gShare i = false then cnt + 1 else cnt
      if n ≤ cnt then (i, cnt) else countFree gShare n turns (i + 1) cnt

/-- `none` is `NULL`. -/
def shalloc (size : BitVec 64) (s : Charmap) : Except Fault (Charmap × Option Nat) :=
  let n := (pageCount size).toInt
  if n ≤ 0 ∨ s.room < n then .ok (s, none)
  else
    match firstIndex maxSharePages (fun i => !s.gShare i) with
    -- `while (1 == g_share[i])` runs past the last page
    | none => .error .outOfBounds
    | some first =>
        match countFree s.gShare n (maxSharePages - first) first 0 with
        | (i, cnt) =>
            if (cnt : Int) < n then .ok (s, none)
            else
              .ok ({ gShare := fill s.gShare (i + 1 - cnt) cnt true
                     gShareCount := s.gShareCount + BitVec.ofNat 32 cnt },
                some (virtualShareStart + (i + 1 - cnt) * pageSize))

def shfree (ptr : Nat) (size : BitVec 64) (s : Charmap) : Except Fault Charmap :=
  let n := (pageCount size).toInt
  if s.room < n then .ok s
  else if ptr < virtualShareStart ∨ virtualShareEnd < ptr then .ok s
  else
    let start := (ptr - virtualShareStart) / pageSize
    if maxSharePages < start + n.toNat then .error .outOfBounds
    else
      .ok { gShare := fill s.gShare start n.toNat false
            gShareCount := s.gShareCount - pageCount size }

/-- The mask of `MI_ROUND_TO_SIZE` clears bits that the division drops. -/
theorem miRoundToSize_div (size : BitVec 64) :
    (miRoundToSize size (BitVec.ofNat 64 pageSize) / BitVec.ofNat 64 pageSize).toNat =
      (size.toNat + (pageSize - 1)) % 2 ^ 64 / pageSize := by
  have hsum : (size.toNat + (pageSize - 1)) % 2 ^ 64 = (size + 4095#64).toNat := by
    rw [BitVec.toNat_add]
    rfl
  rw [BitVec.toNat_udiv, hsum]
  refine Nat.eq_of_testBit_eq fun i => ?_
  change Nat.testBit (BitVec.toNat ((size + 4095#64) &&& ~~~4095#64) / 2 ^ 12) i =
    Nat.testBit (BitVec.toNat (size + 4095#64) / 2 ^ 12) i
  rw [Nat.testBit_div_two_pow, Nat.testBit_div_two_pow]
  change BitVec.getLsbD _ _ = BitVec.getLsbD _ _
  have hclear : BitVec.getLsbD 4095#64 (i + 12) = false := by
    change Nat.testBit (4095 % 2 ^ 64) (i + 12) = false
    exact Nat.testBit_lt_two_pow ((by decide : 4095 % 2 ^ 64 < 2 ^ 12).trans_le
      (Nat.pow_le_pow_right (by decide) (Nat.le_add_left 12 i)))
  rw [BitVec.getLsbD_and, BitVec.getLsbD_not, hclear]
  by_cases hi : i + 12 < 64
  · simp [hi]
  · simp [BitVec.getLsbD_of_ge _ _ (Nat.le_of_not_lt hi)]

/-- The pages that cover `size` bytes. -/
def pages (size : BitVec 64) : Nat := (size.toNat + (pageSize - 1)) / pageSize

/-- Below `2^31` bytes `shalloc` asks for as many pages as cover the size. -/
theorem pageCount_toNat {size : BitVec 64} (small : size.toNat < 2 ^ 31) :
    (pageCount size).toNat = pages size := by
  have hround : (size.toNat + (pageSize - 1)) % 2 ^ 64 = size.toNat + (pageSize - 1) :=
    Nat.mod_eq_of_lt (by simp only [pageSize]; omega)
  rw [pageCount, BitVec.toNat_setWidth, miRoundToSize_div, hround]
  exact Nat.mod_eq_of_lt (by simp only [pageSize]; omega)

theorem pageCount_toInt {size : BitVec 64} (small : size.toNat < 2 ^ 31) :
    (pageCount size).toInt = (pages size : Nat) := by
  rw [BitVec.toInt_eq_toNat_of_lt, pageCount_toNat small]
  rw [pageCount_toNat small]
  simp only [pages, pageSize]
  omega

/-- The free pages from `i` on and below `j`. -/
def freePages (gShare : Nat → Bool) (i j : Nat) : Finset Nat :=
  (Finset.Ico i j).filter fun k => gShare k = false

variable {gShare : Nat → Bool} {n turns i j cnt first last : Nat}

theorem card_freePages_left (h : i < j) :
    (freePages gShare i j).card =
      (if gShare i = false then 1 else 0) + (freePages gShare (i + 1) j).card := by
  have notMem : i ∉ freePages gShare (i + 1) j := by simp [freePages]
  rw [freePages, ← Finset.insert_Ico_succ_left_eq_Ico h, Finset.filter_insert]
  by_cases hi : gShare i = false
  · rw [if_pos hi, if_pos hi, ← freePages]
    rw [Nat.add_comm]
    exact Finset.card_insert_of_notMem notMem
  · rw [if_neg hi, if_neg hi, Nat.zero_add]
    rfl

theorem freePages_self (gShare : Nat → Bool) (i : Nat) : freePages gShare i i = ∅ := by
  simp [freePages]

/-- The counting loop stops at the page that completes `n` free ones, or has
looked at every page and counted fewer. -/
theorem countFree_cases (few : cnt < n) :
    (∃ last, countFree gShare n turns i cnt = (last, n) ∧ i ≤ last ∧ last < i + turns ∧
      gShare last = false ∧ cnt + (freePages gShare i (last + 1)).card = n) ∨
    ∃ total, countFree gShare n turns i cnt = (i + turns, total) ∧ total < n ∧
      total = cnt + (freePages gShare i (i + turns)).card := by
  induction turns generalizing i cnt with
  | zero => exact .inr ⟨cnt, rfl, few, by rw [Nat.add_zero, freePages_self]; rfl⟩
  | succ turns ih =>
      let cnt' := if gShare i = false then cnt + 1 else cnt
      have hturn : countFree gShare n (turns + 1) i cnt =
          if (n : Int) ≤ (cnt' : Int) then (i, cnt')
          else countFree gShare n turns (i + 1) cnt' := rfl
      have hcard : ∀ j, i < j → cnt + (freePages gShare i j).card =
          cnt' + (freePages gShare (i + 1) j).card := by
        intro j hj
        rw [card_freePages_left hj]
        by_cases hi : gShare i = false
        · simp only [cnt', if_pos hi]
          omega
        · simp only [cnt', if_neg hi]
          omega
      rw [hturn]
      by_cases hn : n ≤ cnt'
      · have hi : gShare i = false := by
          by_contra hused
          simp only [cnt', hused, if_false] at hn
          omega
        have hcount : cnt' = n := by
          simp only [cnt', hi, if_true] at hn ⊢
          omega
        refine .inl ⟨i, ?_, Nat.le_refl i, by omega, hi, ?_⟩
        · rw [if_pos (Int.ofNat_le.mpr hn), hcount]
        · rw [hcard _ (Nat.lt_succ_self i), freePages_self, hcount]
          rfl
      · rw [if_neg fun h => hn (Int.ofNat_le.mp h)]
        cases ih (i := i + 1) (Nat.lt_of_not_le hn) with
        | inl stopped =>
            obtain ⟨last, hloop, hfirst, hlast, hfree, htotal⟩ := stopped
            refine .inl ⟨last, hloop, by omega, by omega, hfree, ?_⟩
            rw [hcard _ (by omega), htotal]
        | inr ended =>
            obtain ⟨total, hloop, hfew, htotal⟩ := ended
            have hend : i + 1 + turns = i + (turns + 1) := by omega
            rw [hend] at hloop htotal
            refine .inr ⟨total, hloop, hfew, ?_⟩
            rw [hcard _ (by omega), htotal]

theorem mem_freePages : j ∈ freePages gShare i last ↔ (i ≤ j ∧ j < last) ∧ gShare j = false := by
  simp [freePages]

/-- Pages are free or counted. -/
theorem card_freePages_add_tally (m : Nat) (gShare : Nat → Bool) :
    (freePages gShare 0 m).card + tally m gShare = m := by
  have hsplit := Finset.card_filter_add_card_filter_not (s := Finset.range m)
    (fun k => gShare k = false)
  rw [Finset.card_range] at hsplit
  have hset : ((Finset.range m).filter fun k => ¬ gShare k = false) =
      (Finset.range m).filter fun k => gShare k = true :=
    Finset.filter_congr fun k _ => by simp
  rw [hset] at hsplit
  rw [freePages, Nat.Ico_zero_eq_range]
  exact hsplit

/-- The free pages begin at the first one. -/
theorem freePages_first {m : Nat} (used : ∀ j, j < first → gShare j = true) :
    freePages gShare 0 m = freePages gShare first m := by
  ext j
  rw [mem_freePages, mem_freePages]
  by_cases hj : j < first
  · simp [used j hj]
  · simp [Nat.le_of_not_lt hj]

/-- The pages `shalloc` marks are free exactly if the first free pages stand in
a row. -/
theorem marked_free_iff (hfirst : gShare first = false) (hlast : gShare last = false)
    (hle : first ≤ last) (hcard : (freePages gShare first (last + 1)).card = n) :
    (∀ j, last + 1 - n ≤ j → j < last + 1 - n + n → gShare j = false) ↔
      ∀ j, first ≤ j → j < first + n → gShare j = false := by
  have hn : n ≤ last + 1 - first := by
    have hsub := Finset.card_filter_le (Finset.Ico first (last + 1)) fun k => gShare k = false
    rw [Nat.card_Ico] at hsub
    exact hcard ▸ hsub
  constructor
  · intro marked
    have hsub : Finset.Ico (last + 1 - n) (last + 1) ⊆ freePages gShare first (last + 1) := by
      intro j hj
      rw [Finset.mem_Ico] at hj
      exact mem_freePages.mpr ⟨⟨by omega, hj.2⟩, marked j hj.1 (by omega)⟩
    have hsame := Finset.eq_of_subset_of_card_le hsub (by rw [hcard, Nat.card_Ico]; omega)
    have hmem : first ∈ Finset.Ico (last + 1 - n) (last + 1) := by
      rw [hsame]
      exact mem_freePages.mpr ⟨⟨Nat.le_refl first, by omega⟩, hfirst⟩
    rw [Finset.mem_Ico] at hmem
    exact fun j hlow hhigh => marked j (by omega) (by omega)
  · intro row
    have hend : last < first + n := by
      by_contra hbeyond
      have hsub : insert last (Finset.Ico first (first + n)) ⊆
          freePages gShare first (last + 1) := by
        intro j hj
        cases Finset.mem_insert.mp hj with
        | inl same =>
            rw [same]
            exact mem_freePages.mpr ⟨⟨hle, Nat.lt_succ_self last⟩, hlast⟩
        | inr inRow =>
            rw [Finset.mem_Ico] at inRow
            exact mem_freePages.mpr ⟨⟨inRow.1, by omega⟩, row j inRow.1 inRow.2⟩
      have hle := Finset.card_le_card hsub
      rw [hcard, Finset.card_insert_of_notMem (by simp only [Finset.mem_Ico]; omega),
        Nat.card_Ico] at hle
      omega
    exact fun j hlow hhigh => row j (by omega) (by omega)

/-- The count agrees with the flags. -/
def Charmap.Counted (s : Charmap) : Prop := s.gShareCount.toInt = tally maxSharePages s.gShare

theorem Charmap.Counted.toNat {s : Charmap} (counted : s.Counted) :
    s.gShareCount.toNat = tally maxSharePages s.gShare := by
  have hle := tally_le maxSharePages s.gShare
  have hlt := s.gShareCount.isLt
  rw [Counted, BitVec.toInt_eq_toNat_cond] at counted
  rw [maxSharePages_eq] at hle counted ⊢
  split at counted <;> omega

theorem Charmap.room_of_le {s : Charmap} (h : s.gShareCount.toNat ≤ maxSharePages) :
    s.room = (maxSharePages - s.gShareCount.toNat : Nat) := by
  have htoNat : (BitVec.ofNat 32 maxSharePages - s.gShareCount).toNat =
      maxSharePages - s.gShareCount.toNat := by
    rw [BitVec.toNat_sub, BitVec.toNat_ofNat]
    rw [maxSharePages_eq] at h ⊢
    omega
  rw [Charmap.room, BitVec.toInt_eq_toNat_of_lt, htoNat]
  rw [htoNat, maxSharePages_eq]
  omega

theorem Charmap.Counted.room {s : Charmap} (counted : s.Counted) :
    s.room = (maxSharePages - tally maxSharePages s.gShare : Nat) := by
  have hle := tally_le maxSharePages s.gShare
  rw [room_of_le (counted.toNat.trans_le hle), counted.toNat]

theorem Charmap.Counted.fill_set {s : Charmap} (counted : s.Counted) {start m : Nat}
    (hm : start + m ≤ maxSharePages)
    (clear : ∀ k, start ≤ k → k < start + m → s.gShare k = false) :
    Counted ⟨fill s.gShare start m true, s.gShareCount + BitVec.ofNat 32 m⟩ := by
  have htally := tally_fill_set hm clear
  have hle := tally_le maxSharePages (fill s.gShare start m true)
  have htoNat : (s.gShareCount + BitVec.ofNat 32 m).toNat =
      tally maxSharePages (fill s.gShare start m true) := by
    rw [BitVec.toNat_add, counted.toNat, BitVec.toNat_ofNat]
    rw [maxSharePages_eq] at *
    omega
  change BitVec.toInt _ = _
  rw [BitVec.toInt_eq_toNat_of_lt, htoNat]
  rw [htoNat]
  rw [maxSharePages_eq] at *
  omega

theorem Charmap.Counted.fill_clear {s : Charmap} (counted : s.Counted) {start m : Nat}
    {c : BitVec 32} (hc : c.toNat = m) (hm : start + m ≤ maxSharePages)
    (set : ∀ k, start ≤ k → k < start + m → s.gShare k = true) :
    Counted ⟨fill s.gShare start m false, s.gShareCount - c⟩ := by
  have htally := tally_fill_clear hm set
  have hle := tally_le maxSharePages s.gShare
  have htoNat : (s.gShareCount - c).toNat = tally maxSharePages (fill s.gShare start m false) := by
    rw [BitVec.toNat_sub, counted.toNat, hc]
    rw [maxSharePages_eq] at *
    omega
  change BitVec.toInt _ = _
  rw [BitVec.toInt_eq_toNat_of_lt, htoNat]
  rw [htoNat]
  rw [maxSharePages_eq] at *
  omega

variable {s : Charmap} {size : BitVec 64}

theorem shalloc_of_guard (h : (pageCount size).toInt ≤ 0 ∨ s.room < (pageCount size).toInt) :
    shalloc size s = .ok (s, none) := if_pos h

theorem shalloc_null (small : size.toNat < 2 ^ 31) (counted : s.Counted)
    (h : pages size = 0 ∨ maxSharePages - tally maxSharePages s.gShare < pages size) :
    shalloc size s = .ok (s, none) := by
  refine shalloc_of_guard ?_
  rw [pageCount_toInt small, counted.room]
  omega

/-- Behind its size test `shalloc` marks as many pages as it counted, ending at a
free page, or it counts too few. -/
theorem shalloc_of_first (hn : (pageCount size).toInt = (n : Nat)) (pos : 0 < n)
    (fits : (n : Int) ≤ s.room)
    (hfirst : firstIndex maxSharePages (fun i => !s.gShare i) = some first) :
    (∃ last, first ≤ last ∧ last < maxSharePages ∧ s.gShare last = false ∧
      (freePages s.gShare first (last + 1)).card = n ∧ n ≤ last + 1 ∧
      shalloc size s = .ok (⟨fill s.gShare (last + 1 - n) (n) true,
          s.gShareCount + BitVec.ofNat 32 (n)⟩,
        some (virtualShareStart + (last + 1 - n) * pageSize))) ∨
    (freePages s.gShare first maxSharePages).card < n ∧
      shalloc size s = .ok (s, none) := by
  have hlt := (firstIndex_eq_some.mp hfirst).2.1
  have hbody : shalloc size s =
      match countFree s.gShare (n) (maxSharePages - first) first 0 with
      | (i, cnt) =>
          if (cnt : Int) < n then .ok (s, none)
          else
            .ok ({ gShare := fill s.gShare (i + 1 - cnt) cnt true
                   gShareCount := s.gShareCount + BitVec.ofNat 32 cnt },
              some (virtualShareStart + (i + 1 - cnt) * pageSize)) := by
    rw [shalloc]
    have hguard : ¬ ((n : Int) ≤ 0 ∨ s.room < n) := by omega
    simp only [hn, if_neg hguard, hfirst]
  have hend : first + (maxSharePages - first) = maxSharePages := by omega
  rcases @countFree_cases s.gShare (n) (maxSharePages - first) first 0 pos with
    ⟨last, hloop, hge, hbelow, hlast, hcard⟩ | ⟨total, hloop, hfew, htotal⟩
  · left
    rw [hend] at hbelow
    have hcard' : (freePages s.gShare first (last + 1)).card = n := by omega
    have hwithin : n ≤ last + 1 := by
      have hsub := Finset.card_filter_le (Finset.Ico first (last + 1)) fun k => s.gShare k = false
      rw [Nat.card_Ico] at hsub
      change (freePages s.gShare first (last + 1)).card ≤ _ at hsub
      omega
    refine ⟨last, hge, hbelow, hlast, hcard', hwithin, ?_⟩
    rw [hbody, hloop]
    exact if_neg (Int.lt_irrefl _)
  · right
    rw [hend] at htotal
    refine ⟨by omega, ?_⟩
    rw [hbody, hloop]
    exact if_pos (Int.ofNat_lt.mpr hfew)

/-- With enough pages free and counted as free `shalloc` serves the request. -/
theorem shalloc_served (hn : (pageCount size).toInt = (n : Nat)) (pos : 0 < n)
    (fits : (n : Int) ≤ s.room) (enough : n ≤ maxSharePages - tally maxSharePages s.gShare) :
    ∃ first last,
      firstIndex maxSharePages (fun i => !s.gShare i) = some first ∧ s.gShare first = false ∧
      first ≤ last ∧ last < maxSharePages ∧ s.gShare last = false ∧
      (freePages s.gShare first (last + 1)).card = n ∧ n ≤ last + 1 ∧
      shalloc size s = .ok (⟨fill s.gShare (last + 1 - n) n true,
          s.gShareCount + BitVec.ofNat 32 n⟩,
        some (virtualShareStart + (last + 1 - n) * pageSize)) := by
  obtain ⟨k, hk, hclear⟩ := exists_clear (by omega : tally maxSharePages s.gShare < maxSharePages)
  obtain ⟨first, hfirst⟩ := firstIndex_isSome (fun i => !s.gShare i) hk (by simp [hclear])
  obtain ⟨htest, -, hbefore⟩ := firstIndex_eq_some.mp hfirst
  have hfree : s.gShare first = false := by simpa using htest
  have hused : ∀ j, j < first → s.gShare j = true := fun j hj => by simpa using hbefore j hj
  have hsplit := card_freePages_add_tally maxSharePages s.gShare
  rw [freePages_first hused] at hsplit
  rcases shalloc_of_first hn pos fits hfirst with
    ⟨last, hge, hbelow, hlast, hcard, hwithin, hok⟩ | ⟨hfew, -⟩
  · exact ⟨first, last, hfirst, hfree, hge, hbelow, hlast, hcard, hwithin, hok⟩
  · omega

/-- The same for a count that agrees with the flags. -/
theorem shalloc_of_room (small : size.toNat < 2 ^ 31) (counted : s.Counted)
    (pos : 0 < pages size) (fits : pages size ≤ maxSharePages - tally maxSharePages s.gShare) :
    ∃ first last,
      firstIndex maxSharePages (fun i => !s.gShare i) = some first ∧ s.gShare first = false ∧
      first ≤ last ∧ last < maxSharePages ∧ s.gShare last = false ∧
      (freePages s.gShare first (last + 1)).card = pages size ∧ pages size ≤ last + 1 ∧
      shalloc size s = .ok (⟨fill s.gShare (last + 1 - pages size) (pages size) true,
          s.gShareCount + BitVec.ofNat 32 (pages size)⟩,
        some (virtualShareStart + (last + 1 - pages size) * pageSize)) := by
  have hroom := counted.room
  exact shalloc_served (pageCount_toInt small) pos (by omega) fits

/-- A refused request changes nothing. -/
theorem shalloc_eq_none {s' : Charmap} (h : shalloc size s = .ok (s', none)) : s' = s := by
  simp only [shalloc] at h
  split at h
  · cases h
    rfl
  · split at h
    · cases h
    · split at h
      · cases h
        rfl
      · cases h

/-- Where a request was served, whatever the state. -/
theorem shalloc_eq_some {s' : Charmap} {p : Nat} (h : shalloc size s = .ok (s', some p)) :
    ∃ n : Nat, (pageCount size).toInt = n ∧ 0 < n ∧ (n : Int) ≤ s.room ∧ ∃ first last,
      firstIndex maxSharePages (fun i => !s.gShare i) = some first ∧ s.gShare first = false ∧
      first ≤ last ∧ last < maxSharePages ∧ s.gShare last = false ∧
      (freePages s.gShare first (last + 1)).card = n ∧ n ≤ last + 1 ∧
      s' = ⟨fill s.gShare (last + 1 - n) n true, s.gShareCount + BitVec.ofNat 32 n⟩ ∧
      p = virtualShareStart + (last + 1 - n) * pageSize := by
  by_cases hguard : (pageCount size).toInt ≤ 0 ∨ s.room < (pageCount size).toInt
  · rw [shalloc_of_guard hguard] at h
    simp at h
  obtain ⟨n, hn⟩ := Int.eq_ofNat_of_zero_le (by omega : 0 ≤ (pageCount size).toInt)
  have pos : 0 < n := by omega
  have fits : (n : Int) ≤ s.room := by omega
  refine ⟨n, hn, pos, fits, ?_⟩
  cases hfirst : firstIndex maxSharePages (fun i => !s.gShare i) with
  | none =>
      simp only [shalloc, if_neg hguard, hfirst] at h
      cases h
  | some first =>
      have hfree : s.gShare first = false := by
        simpa using (firstIndex_eq_some.mp hfirst).1
      rcases shalloc_of_first hn pos fits hfirst with
        ⟨last, hge, hbelow, hlast, hcard, hwithin, hok⟩ | ⟨-, hnull⟩
      · rw [hok] at h
        simp only [Except.ok.injEq, Prod.mk.injEq, Option.some.injEq] at h
        exact ⟨first, last, rfl, hfree, hge, hbelow, hlast, hcard, hwithin, h.1.symm, h.2.symm⟩
      · rw [hnull] at h
        simp at h

/-- What the size test of `shfree` lets through gives the pages back. -/
theorem shfree_of_room (hn : (pageCount size).toInt = (n : Nat)) {start : Nat}
    (fits : (n : Int) ≤ s.room) (inside : start + n ≤ maxSharePages) (pos : 0 < n) :
    shfree (virtualShareStart + start * pageSize) size s =
      .ok ⟨fill s.gShare start n false, s.gShareCount - pageCount size⟩ := by
  have hstart : (virtualShareStart + start * pageSize - virtualShareStart) / pageSize = start := by
    rw [Nat.add_sub_cancel_left]
    exact Nat.mul_div_cancel start (by decide)
  rw [shfree]
  have hrange : ¬ (virtualShareStart + start * pageSize < virtualShareStart ∨
      virtualShareEnd < virtualShareStart + start * pageSize) := by
    rw [maxSharePages_eq] at inside
    simp only [virtualShareStart, virtualShareEnd, pageSize]
    omega
  simp only [hn, if_neg (Int.not_lt.mpr fits), if_neg hrange, hstart, Int.toNat_natCast]
  exact if_neg (by omega)

theorem shfree_refused (ptr : Nat) (large : s.room < (pageCount size).toInt) :
    shfree ptr size s = .ok s := if_pos large

/-- What `shfree` does: nothing, or it clears the pages that its size test let
through. -/
theorem shfree_cases {s' : Charmap} {ptr : Nat} (h : shfree ptr size s = .ok s') :
    s' = s ∨ s' = ⟨fill s.gShare ((ptr - virtualShareStart) / pageSize)
      (pageCount size).toInt.toNat false, s.gShareCount - pageCount size⟩ := by
  by_cases large : s.room < (pageCount size).toInt
  · rw [shfree_refused ptr large] at h
    exact .inl (Except.ok.inj h).symm
  rw [shfree] at h
  simp only [if_neg large] at h
  split at h
  · exact .inl (Except.ok.inj h).symm
  · split at h
    · cases h
    · exact .inr (Except.ok.inj h).symm

end OsDesign.Shm
