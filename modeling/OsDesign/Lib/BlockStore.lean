import OsDesign.Lib.ByteStore
import Mathlib.Data.List.Nodup
import Mathlib.Data.List.Range
import Mathlib.Data.List.Perm.Subperm

/-!
A byte store cut into slots of `n` bytes, with a flag for each slot in use. A
block is put into a clear slot and taken out by the offset it was put at;
`Holds` relates the flags and the bytes to the list of blocks that are out.
-/
namespace BlockStore

open ByteStore

variable {β : Type*} {n slots : Nat} {flag : Nat → Bool} {store : Nat → β}

/-- The blocks put and not taken yet, each by its offset. -/
abbrev Blocks (n : Nat) (β : Type*) := List (Nat × (Fin n → β))

def Blocks.offsets (blocks : Blocks n β) : List Nat := blocks.map Prod.fst

def Blocks.without (blocks : Blocks n β) (offset : Nat) : Blocks n β :=
  blocks.filter fun b => b.1 ≠ offset

theorem Blocks.mem_offsets_without {blocks : Blocks n β} {offset o : Nat} :
    o ∈ (blocks.without offset).offsets ↔ o ∈ blocks.offsets ∧ o ≠ offset := by
  simp only [offsets, without, List.mem_map, List.mem_filter, decide_eq_true_eq]
  constructor
  · rintro ⟨b, ⟨hb, hne⟩, rfl⟩
    exact ⟨⟨b, hb, rfl⟩, hne⟩
  · rintro ⟨⟨b, hb, rfl⟩, hne⟩
    exact ⟨b, ⟨hb, hne⟩, rfl⟩

/-- Distinct offsets: taking one leaves one fewer. -/
theorem Blocks.length_without {blocks : Blocks n β} {offset : Nat}
    (distinct : blocks.offsets.Nodup) (h : offset ∈ blocks.offsets) :
    (blocks.without offset).length + 1 = blocks.length := by
  have one : blocks.offsets.count offset = 1 := List.count_eq_one_of_mem distinct h
  have parts := List.length_eq_countP_add_countP (fun b : Nat × (Fin n → β) => b.1 == offset)
    (l := blocks)
  rw [offsets, List.count, List.countP_map] at one
  have rest : (blocks.without offset).length =
      blocks.countP fun b => decide (¬ (b.1 == offset) = true) := by
    rw [without, ← List.countP_eq_length_filter]
    simp
  change blocks.countP (fun b => b.1 == offset) = 1 at one
  omega

/-- The blocks lie in distinct slots, which are the slots in use, byte for byte. -/
structure Holds (slots : Nat) (flag : Nat → Bool) (store : Nat → β) (blocks : Blocks n β) :
    Prop where
  distinct : blocks.offsets.Nodup
  placed : ∀ o block, (o, block) ∈ blocks →
    ∃ k, k < slots ∧ o = k * n ∧ flag k = true ∧ read n store o = block
  marked : ∀ k, k < slots → flag k = true → k * n ∈ blocks.offsets

variable {blocks : Blocks n β} {k o : Nat}

theorem Holds.empty (clear : ∀ k, k < slots → flag k = false) :
    Holds slots flag store ([] : Blocks n β) where
  distinct := List.nodup_nil
  placed := fun o block h => absurd h (List.not_mem_nil)
  marked := fun k hk set => by simp [clear k hk] at set

theorem Holds.notMem_of_clear (holds : Holds slots flag store blocks) (hn : 0 < n)
    (clear : flag k = false) : k * n ∉ blocks.offsets := by
  intro hmem
  obtain ⟨⟨o, block⟩, hb, rfl⟩ := List.mem_map.mp hmem
  obtain ⟨k', _, hoff, hset, _⟩ := holds.placed _ block hb
  obtain rfl : k = k' := Nat.eq_of_mul_eq_mul_right hn hoff
  simp [clear] at hset

/-- Writing a block to a clear slot reaches no block that is out. -/
theorem Holds.put (holds : Holds slots flag store blocks) (hn : 0 < n) (hk : k < slots)
    (clear : flag k = false) (block : Fin n → β) :
    Holds slots (Function.update flag k true) (write store (k * n) block)
      ((k * n, block) :: blocks) := by
  refine ⟨List.nodup_cons.mpr ⟨holds.notMem_of_clear hn clear, holds.distinct⟩, ?_, ?_⟩
  · intro o page hmem
    rcases List.mem_cons.mp hmem with same | hmem
    · cases same
      exact ⟨k, hk, rfl, Function.update_self k true flag, read_write_self store _ block⟩
    · obtain ⟨k', hk', rfl, hset, hread⟩ := holds.placed o page hmem
      have hne : k' ≠ k := by
        rintro rfl
        simp [clear] at hset
      refine ⟨k', hk', rfl, ?_, ?_⟩
      · rw [Function.update_of_ne hne, hset]
      · rw [read_write_block_of_ne store k k' block hne.symm, hread]
  · intro k' hk' hset
    by_cases hne : k' = k
    · rw [hne]
      exact List.mem_cons_self
    · rw [Function.update_of_ne hne] at hset
      exact List.mem_cons_of_mem _ (holds.marked k' hk' hset)

/-- Taking a block clears its slot only. -/
theorem Holds.take (holds : Holds slots flag store blocks) (hn : 0 < n) :
    Holds slots (Function.update flag k false) store (blocks.without (k * n)) := by
  refine ⟨holds.distinct.sublist (List.filter_sublist.map Prod.fst), ?_, ?_⟩
  · intro o page hmem
    obtain ⟨hmem, hne⟩ := List.mem_filter.mp hmem
    obtain ⟨k', hk', rfl, hset, hread⟩ := holds.placed o page hmem
    have hkk : k' ≠ k := by
      rintro rfl
      simp at hne
    exact ⟨k', hk', rfl, (Function.update_of_ne hkk _ _).trans hset, hread⟩
  · intro k' hk' hset
    by_cases hkk : k' = k
    · rw [hkk, Function.update_self] at hset
      cases hset
    · rw [Function.update_of_ne hkk] at hset
      have hmem := holds.marked k' hk' hset
      refine Blocks.mem_offsets_without.mpr ⟨hmem, ?_⟩
      intro same
      exact hkk (Nat.eq_of_mul_eq_mul_right hn same)

/-- With fewer blocks than slots there is a clear slot. -/
theorem Holds.exists_clear (holds : Holds slots flag store blocks) (hn : 0 < n)
    (room : blocks.length < slots) : ∃ k, k < slots ∧ flag k = false := by
  by_contra full
  have covered : (List.range slots).map (· * n) ⊆ blocks.offsets := by
    intro o ho
    obtain ⟨k, hk, rfl⟩ := List.mem_map.mp ho
    have hlt := List.mem_range.mp hk
    refine holds.marked k hlt ?_
    by_contra clear
    exact full ⟨k, hlt, by simpa using clear⟩
  have distinct : ((List.range slots).map (· * n)).Nodup :=
    List.nodup_range.map fun _ _ same => Nat.eq_of_mul_eq_mul_right hn same
  have := (distinct.subperm covered).length_le
  simp [Blocks.offsets] at this
  omega

/-- There are at most as many blocks as slots. -/
theorem Holds.length_le (holds : Holds slots flag store blocks) : blocks.length ≤ slots := by
  have covered : blocks.offsets ⊆ (List.range slots).map (· * n) := by
    intro o ho
    obtain ⟨⟨o, block⟩, hmem, rfl⟩ := List.mem_map.mp ho
    obtain ⟨k, hk, hoff, -⟩ := holds.placed o block hmem
    exact List.mem_map.mpr ⟨k, List.mem_range.mpr hk, hoff.symm⟩
  have := (holds.distinct.subperm covered).length_le
  simpa [Blocks.offsets] using this

end BlockStore
