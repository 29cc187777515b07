import OsDesign.Shm.Allocations

/-!
`shfree` right after `shalloc`. Here the runs are not orderly: pages may have been
handed out twice or never given back. What holds all the same is that the count is
the sum over the allocations that were not given back or were refused by `shfree`,
and that only their pages are marked.
-/
namespace OsDesign.Shm

open Loops Tally Virt

/-- Giving back what was just allocated leads back to the state before, and the
same request is answered with the same address. -/
def RoundTrip (s s₁ : Charmap) (size : BitVec 64) (p : Nat) : Prop :=
  ∃ s₂, shfree p size s₁ = .ok s₂ ∧ s₂.gShare = s.gShare ∧ s₂.gShareCount = s.gShareCount ∧
    ∃ s₃, shalloc size s₂ = .ok (s₃, some p)

/-- The `n` pages from the first free one on are free. -/
def Charmap.Row (s : Charmap) (n : Nat) : Prop :=
  ∀ first, first ∈ firstIndex maxSharePages (fun i => !s.gShare i) →
    ∀ j, first ≤ j → j < first + n → s.gShare j = false

variable {s s' : Charmap} {size : BitVec 64} {p n : Nat}

theorem pageCount_toNat_eq (hn : (pageCount size).toInt = (n : Nat)) :
    (pageCount size).toNat = n := by
  have hlt := (pageCount size).isLt
  rw [BitVec.toInt_eq_toNat_cond] at hn
  split at hn <;> omega

theorem pageCount_eq_ofNat (hn : (pageCount size).toInt = (n : Nat)) :
    pageCount size = BitVec.ofNat 32 n := by
  rw [← pageCount_toNat_eq hn, BitVec.ofNat_toNat, BitVec.setWidth_eq]

/-- The count behind a served request is larger by the pages. -/
theorem shalloc_count (bounded : s.gShareCount.toNat ≤ maxSharePages)
    (h : shalloc size s = .ok (s', some p)) :
    s'.gShareCount.toNat = s.gShareCount.toNat + (pageCount size).toNat ∧
      s'.gShareCount.toNat ≤ maxSharePages := by
  obtain ⟨n, hn, -, fits, first, last, -, -, -, -, -, -, -, rfl, -⟩ := shalloc_eq_some h
  rw [Charmap.room_of_le bounded] at fits
  have hcount : (s.gShareCount + BitVec.ofNat 32 n).toNat = s.gShareCount.toNat + n := by
    rw [BitVec.toNat_add, BitVec.toNat_ofNat]
    rw [maxSharePages_eq] at bounded fits
    omega
  rw [pageCount_toNat_eq hn]
  refine ⟨hcount, ?_⟩
  rw [hcount]
  omega

/-- In a state with a sound count, the round trip succeeds exactly if as many pages
stay free as the request took, and the pages that it took were free. -/
theorem roundTrip_iff_of_bounded (small : size.toNat < 2 ^ 31)
    (bounded : s.gShareCount.toNat ≤ maxSharePages) (h : shalloc size s = .ok (s', some p)) :
    RoundTrip s s' size p ↔
      s.gShareCount.toNat + 2 * pages size ≤ maxSharePages ∧ s.Row (pages size) := by
  obtain ⟨hcount, hle⟩ := shalloc_count bounded h
  obtain ⟨n, hn, pos, -, first, last, hfirst, hfree, hge, hlast, hclear, hcard, hwithin, rfl,
    rfl⟩ := shalloc_eq_some h
  obtain rfl : n = pages size := Int.ofNat_inj.mp (hn.symm.trans (pageCount_toInt small))
  rw [pageCount_toNat small] at hcount
  have hrow : s.Row (pages size) ↔ ∀ j, last + 1 - pages size ≤ j →
      j < last + 1 - pages size + pages size → s.gShare j = false := by
    rw [marked_free_iff hfree hclear hge hcard]
    refine ⟨fun row => row first hfirst, fun row first' hfirst' => ?_⟩
    obtain rfl : first = first' := Option.some.inj (hfirst.symm.trans hfirst')
    exact row
  have hroom := Charmap.room_of_le hle
  rw [hcount] at hroom
  by_cases fits : s.gShareCount.toNat + 2 * pages size ≤ maxSharePages
  · have hfreed := shfree_of_room (s := ⟨fill s.gShare (last + 1 - pages size) (pages size) true,
      s.gShareCount + BitVec.ofNat 32 (pages size)⟩) hn (by rw [hroom]; omega)
      (by omega : last + 1 - pages size + pages size ≤ maxSharePages) pos
    have hback : s.gShareCount + BitVec.ofNat 32 (pages size) - pageCount size =
        s.gShareCount := by
      rw [pageCount_eq_ofNat hn, BitVec.add_sub_cancel]
    rw [hback] at hfreed
    refine ⟨fun trip => ⟨fits, ?_⟩, fun both => ?_⟩
    · obtain ⟨s₂, hs₂, hshare, -, -⟩ := trip
      rw [hfreed] at hs₂
      rw [← Except.ok.inj hs₂] at hshare
      exact hrow.mpr ((fill_clear_fill_set_iff _ _ _).mp hshare)
    · have hshare := (fill_clear_fill_set_iff _ _ _).mpr (hrow.mp both.2)
      rw [hshare] at hfreed
      exact ⟨s, hfreed, rfl, rfl, _, h⟩
  · have hlarge : Charmap.room ⟨fill s.gShare (last + 1 - pages size) (pages size) true,
        s.gShareCount + BitVec.ofNat 32 (pages size)⟩ < (pageCount size).toInt := by
      rw [hroom, hn]
      omega
    have hrefused := shfree_refused (virtualShareStart + (last + 1 - pages size) * pageSize) hlarge
    refine ⟨fun trip => ?_, fun both => absurd both.1 fits⟩
    obtain ⟨s₂, hs₂, -, hsame, -⟩ := trip
    rw [hrefused] at hs₂
    rw [← Except.ok.inj hs₂] at hsame
    rw [hsame] at hcount
    omega

namespace Allocation

/-- The pages that `shalloc` counted for the allocation. -/
def taken (a : Allocation) : Nat := (pageCount a.size).toNat

/-- Page `k` is one of those that `shalloc` marked. -/
def Marks (a : Allocation) (k : Nat) : Prop :=
  ∃ first, a.address = virtualShareStart + first * pageSize ∧ first ≤ k ∧ k < first + a.taken

end Allocation

namespace Section

/-- Any size is requested, and what is given back is live. -/
def Frees (s : Section) : Call → Prop
  | .shalloc _ => True
  | .shfree a => a ∈ s.live

/-- The allocations whose pages are counted: the live ones, and those that `shfree`
was given and refused. Only their pages are marked. -/
structure Held (s : Section) (held : List Allocation) : Prop where
  live : s.live.Subperm held
  count : s.charmap.gShareCount.toNat = (held.map Allocation.taken).sum
  bounded : s.charmap.gShareCount.toNat ≤ maxSharePages
  marked : ∀ k, s.charmap.gShare k = true → ∃ a, a ∈ held ∧ a.Marks k

variable {s s' : Section} {c : Call} {size : BitVec 64} {p n : Nat} {a : Allocation}
  {held : List Allocation}

theorem start_held : start.Held [] := by
  refine ⟨List.Subperm.refl [], rfl, Nat.zero_le _, ?_⟩
  intro k hk
  cases hk

theorem Held.shalloc (inv : s.Held held) (step : s.Step (.shalloc size) s') :
    ∃ held', s'.Held held' := by
  rw [Step, next] at step
  cases hcall : Shm.shalloc size s.charmap with
  | error fault => simp [hcall] at step
  | ok result =>
      obtain ⟨charmap, address⟩ := result
      cases address with
      | none =>
          simp only [hcall, Except.ok.injEq] at step
          rw [← step, shalloc_eq_none hcall]
          exact ⟨held, inv⟩
      | some p =>
          simp only [hcall, Except.ok.injEq] at step
          obtain ⟨hcount, hle⟩ := shalloc_count inv.bounded hcall
          rw [← step]
          refine ⟨held ++ [⟨p, size⟩], ?_, ?_, hle, ?_⟩
          · exact inv.live.append (List.Subperm.refl _)
          · simp only [List.map_append, List.sum_append, List.map_cons, List.map_nil,
              List.sum_singleton]
            rw [← inv.count]
            exact hcount
          · intro k hk
            obtain ⟨m, hm, -, -, first, last, -, -, -, -, -, -, -, rfl, rfl⟩ :=
              shalloc_eq_some hcall
            by_cases hrange : last + 1 - m ≤ k ∧ k < last + 1 - m + m
            · refine ⟨_, List.mem_append_right held (List.mem_singleton_self _),
                last + 1 - m, rfl, hrange.1, ?_⟩
              rw [Allocation.taken, pageCount_toNat_eq hm]
              exact hrange.2
            · change fill s.charmap.gShare _ m true k = true at hk
              rw [fill_of_notMem true hrange] at hk
              obtain ⟨b, hb, hmarks⟩ := inv.marked k hk
              exact ⟨b, List.mem_append_left _ hb, hmarks⟩

theorem Held.shfree (inv : s.Held held) (ha : a ∈ s.live) (step : s.Step (.shfree a) s') :
    ∃ held', s'.Held held' := by
  have hheld : a ∈ held := inv.live.subset ha
  have hsum := List.sum_map_erase Allocation.taken hheld
  have hcount := inv.count
  have hbounded := inv.bounded
  rw [Step, next] at step
  cases hcall : Shm.shfree a.address a.size s.charmap with
  | error fault => simp [hcall] at step
  | ok charmap =>
      simp only [hcall, Except.ok.injEq] at step
      rw [← step]
      cases shfree_cases hcall with
      | inl same =>
          rw [same]
          have hlive := (List.erase_subperm a s.live).trans inv.live
          exact ⟨held, hlive, inv.count, inv.bounded, inv.marked⟩
      | inr freed =>
          have hle : a.taken ≤ s.charmap.gShareCount.toNat := by omega
          have hless : charmap.gShareCount.toNat = s.charmap.gShareCount.toNat - a.taken := by
            rw [freed, BitVec.toNat_sub_of_le (BitVec.le_def.mpr hle)]
            rfl
          refine ⟨held.erase a, inv.live.erase a, ?_, ?_, ?_⟩
          · change charmap.gShareCount.toNat = _
            omega
          · change charmap.gShareCount.toNat ≤ _
            omega
          · intro k hk
            have htaken : (pageCount a.size).toInt.toNat = a.taken := by
              have hsmall : a.taken ≤ maxSharePages := hle.trans hbounded
              rw [maxSharePages_eq] at hsmall
              rw [Allocation.taken] at hsmall ⊢
              rw [BitVec.toInt_eq_toNat_of_lt (by omega), Int.toNat_natCast]
            rw [freed, htaken] at hk
            change fill s.charmap.gShare _ a.taken false k = true at hk
            by_cases hrange : (a.address - virtualShareStart) / pageSize ≤ k ∧
                k < (a.address - virtualShareStart) / pageSize + a.taken
            · rw [fill_of_mem false hrange] at hk
              cases hk
            · rw [fill_of_notMem false hrange] at hk
              obtain ⟨b, hb, hmarks⟩ := inv.marked k hk
              refine ⟨b, (List.mem_erase_of_ne ?_).mpr hb, hmarks⟩
              rintro rfl
              obtain ⟨first, haddress, hlow, hhigh⟩ := hmarks
              rw [haddress, Nat.add_sub_cancel_left, Nat.mul_div_cancel first (by decide)] at hrange
              exact hrange ⟨hlow, hhigh⟩

theorem Held.reachable (reach : Runs.Reachable (fun s => s = start) Frees Step s) :
    ∃ held, s.Held held := by
  refine reach.invariant (fun s => ∃ held, s.Held held) ?_ ?_
  · intro s hs
    rw [hs]
    exact ⟨[], start_held⟩
  · intro s c s' permitted step before
    obtain ⟨held, inv⟩ := before
    cases c with
    | shalloc size => exact inv.shalloc step
    | shfree a => exact inv.shfree permitted step

/-- Where twice the pages are not counted, they are one page, or nothing is marked. -/
theorem Held.row (inv : s.Held held) (pos : 0 < n)
    (fits : s.charmap.gShareCount.toNat + 2 * n ≤ maxSharePages) : s.charmap.Row n := by
  intro first hfirst j hlow hhigh
  by_cases hone : n = 1
  · have hsame : j = first := by omega
    rw [hsame]
    simpa using (firstIndex_eq_some.mp hfirst).1
  · have hzero : (held.map Allocation.taken).sum = 0 := by
      rw [← inv.count]
      rw [maxSharePages_eq] at fits
      omega
    by_contra hmarked
    obtain ⟨a, ha, first', -, hfrom, hto⟩ := inv.marked j (by simpa using hmarked)
    have hnone : a.taken = 0 :=
      List.sum_eq_zero_iff_forall_eq_nat.mp hzero _ (List.mem_map_of_mem ha)
    omega

/-- In every state that requests and frees of live allocations lead to, `shfree`
undoes a served `shalloc` exactly if as many pages as it took stay uncounted. -/
theorem roundTrip_iff (reach : Runs.Reachable (fun s => s = start) Frees Step s)
    (small : size.toNat < 2 ^ 31) {charmap : Charmap}
    (served : Shm.shalloc size s.charmap = .ok (charmap, some p)) :
    RoundTrip s.charmap charmap size p ↔
      s.charmap.gShareCount.toNat + 2 * pages size ≤ maxSharePages := by
  obtain ⟨held, inv⟩ := Held.reachable reach
  rw [roundTrip_iff_of_bounded small inv.bounded served]
  refine ⟨And.left, fun fits => ⟨fits, inv.row ?_ fits⟩⟩
  obtain ⟨m, hm, pos, -⟩ := shalloc_eq_some served
  obtain rfl : m = pages size := Int.ofNat_inj.mp (hm.symm.trans (pageCount_toInt small))
  exact pos

instance (s : Section) : DecidablePred s.Frees
  | .shalloc _ => inferInstanceAs (Decidable True)
  | .shfree a => inferInstanceAs (Decidable (a ∈ s.live))

/-- One page is taken behind another one, and given back. -/
theorem roundTrip_behind_one : ∃ (s : Section) (charmap : Charmap),
    s.live = [⟨virtualShareStart, 4096⟩] ∧
      Shm.shalloc 512 s.charmap = .ok (charmap, some (virtualShareStart + pageSize)) ∧
      RoundTrip s.charmap charmap 512 (virtualShareStart + pageSize) := by
  have hrun : (execute Frees start [.shalloc 4096]).any (fun s : Section =>
      decide (s.live = [⟨virtualShareStart, 4096⟩] ∧
        s.charmap.gShareCount.toNat + 2 * pages 512 ≤ maxSharePages) &&
      (Shm.shalloc 512 s.charmap).toOption.any fun r =>
        decide (r.2 = some (virtualShareStart + pageSize))) = true := by
    decide +kernel
  obtain ⟨s, hs, hboth⟩ := (Option.any_eq_true _ _).mp hrun
  obtain ⟨hfacts, hserved⟩ := (Bool.and_eq_true _ _).mp hboth
  obtain ⟨hlive, hcondition⟩ := of_decide_eq_true hfacts
  cases hcall : Shm.shalloc 512 s.charmap with
  | error fault =>
      rw [hcall] at hserved
      cases hserved
  | ok served =>
      obtain ⟨charmap, p⟩ := served
      rw [hcall] at hserved
      obtain rfl : p = some (virtualShareStart + pageSize) := of_decide_eq_true hserved
      have trip := (roundTrip_iff (reachable_of_execute hs) (by decide) hcall).mpr hcondition
      exact ⟨s, charmap, hlive, hcall, trip⟩

/-- All four pages are allocated at the start, and `shfree` does not take them back. -/
theorem section_not_given_back : ∃ charmap : Charmap,
    Shm.shalloc 16384 shinit = .ok (charmap, some virtualShareStart) ∧
      Shm.shfree virtualShareStart 16384 charmap = .ok charmap ∧
      charmap.gShareCount ≠ shinit.gShareCount ∧
      Shm.shalloc 16384 charmap = .ok (charmap, none) ∧
      ¬ RoundTrip shinit charmap 16384 virtualShareStart := by
  have hrun : (Shm.shalloc 16384 shinit).toOption.any (fun r =>
      decide (r.2 = some virtualShareStart ∧ r.1.gShareCount ≠ shinit.gShareCount ∧
        r.1.room < (pageCount 16384).toInt)) = true := by
    decide +kernel
  cases hcall : Shm.shalloc 16384 shinit with
  | error fault =>
      rw [hcall] at hrun
      cases hrun
  | ok served =>
      obtain ⟨charmap, p⟩ := served
      rw [hcall] at hrun
      obtain ⟨rfl, hcount, hroom⟩ :
          p = some virtualShareStart ∧ charmap.gShareCount ≠ shinit.gShareCount ∧
            charmap.room < (pageCount 16384).toInt := of_decide_eq_true hrun
      have hrefused : Shm.shfree virtualShareStart 16384 charmap = .ok charmap :=
        shfree_refused _ hroom
      refine ⟨charmap, rfl, hrefused, hcount, shalloc_of_guard (.inr hroom), ?_⟩
      rintro ⟨s₂, hs₂, -, hsame, -⟩
      rw [hrefused] at hs₂
      rw [← Except.ok.inj hs₂] at hsame
      exact hcount hsame

end Section

end OsDesign.Shm
