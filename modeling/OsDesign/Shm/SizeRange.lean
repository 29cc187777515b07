import OsDesign.Shm.RoundTrip

/-!
`shalloc` over the whole range of `size_t`. The number of pages is stored in an
`int`, so that only the size modulo 2^44 decides how many pages are marked.
-/
namespace OsDesign.Shm

open Tally Virt

/-- Where `shalloc` answers with an address, the size is not zero and the pages it
marked from there on cover it. -/
def CoversRequest (s : Charmap) (size : BitVec 64) : Prop :=
  ∀ s' p, shalloc size s = .ok (s', some p) → 1 ≤ size.toNat ∧
    ∃ start n, start + n ≤ maxSharePages ∧ p = virtualShareStart + start * pageSize ∧
      s'.gShare = fill s.gShare start n true ∧
      s'.gShareCount = s.gShareCount + BitVec.ofNat 32 n ∧ size.toNat ≤ n * pageSize

variable {s : Charmap} {size : BitVec 64} {n : Nat}

/-- Rounding up may wrap, but only to a size of no pages, as the narrowing does. -/
theorem pageCount_mod (size : BitVec 64) :
    (pageCount size).toNat = (size.toNat % 2 ^ 44 + (pageSize - 1)) / pageSize % 2 ^ 32 := by
  have hlt := size.isLt
  rw [pageCount, BitVec.toNat_setWidth, miRoundToSize_div]
  simp only [pageSize]
  omega

/-- A number of pages that passes the guards is that of the size modulo 2^44. -/
theorem size_mod_of_pageCount (hn : (pageCount size).toInt = (n : Nat)) (pos : 0 < n) :
    0 < size.toNat % 2 ^ 44 ∧ size.toNat % 2 ^ 44 ≤ n * pageSize ∧
      (n - 1) * pageSize < size.toNat % 2 ^ 44 := by
  have hmod := pageCount_mod size
  rw [pageCount_toNat_eq hn] at hmod
  simp only [pageSize] at hmod ⊢
  omega

theorem pageCount_of_size_mod (pos : 0 < size.toNat % 2 ^ 44)
    (few : size.toNat % 2 ^ 44 ≤ n * pageSize) (small : n < 2 ^ 31) :
    ∃ m, (pageCount size).toInt = (m : Nat) ∧ 0 < m ∧ m ≤ n := by
  have hmod := pageCount_mod size
  simp only [pageSize] at few hmod
  have hle : (pageCount size).toNat ≤ n := by omega
  refine ⟨(pageCount size).toNat, ?_, by omega, hle⟩
  exact BitVec.toInt_eq_toNat_of_lt (by omega)

/-- No more than the whole section is ever covered. -/
theorem CoversRequest.size_le (covers : CoversRequest s size) {s' : Charmap} {p : Nat}
    (h : shalloc size s = .ok (s', some p)) : size.toNat ≤ maxSharePages * pageSize := by
  obtain ⟨-, start, n, inside, -, -, -, covered⟩ := covers s' p h
  exact covered.trans (Nat.mul_le_mul_right pageSize (by omega))

/-- The answer covers the request unless a size above 2^44 passes the guards as the few
pages that its low bits ask for. -/
theorem coversRequest_iff (counted : s.Counted) :
    CoversRequest s size ↔
      size.toNat ≤ 2 ^ 44 ∨ size.toNat % 2 ^ 44 = 0 ∨
        (maxSharePages - s.gShareCount.toNat) * pageSize < size.toNat % 2 ^ 44 := by
  have hroom := counted.room
  have htally := tally_le maxSharePages s.gShare
  rw [counted.toNat]
  constructor
  · intro covers
    by_contra narrowed
    have pos : 0 < size.toNat % 2 ^ 44 := by omega
    have few : size.toNat % 2 ^ 44 ≤
        (maxSharePages - tally maxSharePages s.gShare) * pageSize := by omega
    have free : maxSharePages - tally maxSharePages s.gShare < 2 ^ 31 := by
      rw [maxSharePages_eq]
      omega
    obtain ⟨n, hn, hpos, hfits⟩ := pageCount_of_size_mod pos few free
    obtain ⟨_, last, -, -, -, -, -, -, -, hok⟩ := shalloc_served hn hpos (by omega) hfits
    have covered := covers.size_le hok
    rw [maxSharePages_eq] at covered
    simp only [pageSize] at covered
    omega
  · intro condition s' p h
    obtain ⟨n, hn, pos, fits, first, last, -, -, -, hlast, -, -, hwithin, rfl, rfl⟩ :=
      shalloc_eq_some h
    obtain ⟨hpos, hcover, hbelow⟩ := size_mod_of_pageCount hn pos
    have hle : n ≤ maxSharePages - tally maxSharePages s.gShare := by omega
    rw [maxSharePages_eq] at hle condition
    have covered : size.toNat ≤ n * pageSize := by
      simp only [pageSize] at *
      omega
    exact ⟨by omega, last + 1 - n, n, by omega, rfl, rfl, rfl, covered⟩

/-- A request for one page in the empty section. -/
theorem coversRequest_one_page : CoversRequest shinit 4096#64 :=
  (coversRequest_iff Section.start_consistent.counted).mpr (.inl (by decide))

/-- 2^44 + 4096 bytes are answered with one page. -/
theorem request_not_covered :
    (shalloc 0x100000001000#64 shinit).toOption.map (fun r => (r.1.gShareCount, r.2)) =
        some (1#32, some virtualShareStart) ∧
      ¬ CoversRequest shinit 0x100000001000#64 := by
  have answer : (shalloc 0x100000001000#64 shinit).toOption.map
      (fun r => (r.1.gShareCount, r.2)) = some (1#32, some virtualShareStart) := by
    decide +kernel
  refine ⟨answer, ?_⟩
  intro covers
  obtain ⟨⟨s', p⟩, served, shown⟩ := Option.map_eq_some_iff.mp answer
  obtain ⟨-, rfl⟩ := Prod.mk.inj shown
  have beyond := covers.size_le (Outcome.toOption_eq_some_iff.mp served)
  rw [maxSharePages_eq] at beyond
  exact absurd beyond (by decide)

end OsDesign.Shm
