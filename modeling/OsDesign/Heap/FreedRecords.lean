import OsDesign.Heap.LiveSlots
import OsDesign.Heap.Trunks

/-!
The record that `my_free` goes to. The pointer is narrowed to an `int` offset from
the first trunk, and the trunk is read off the offset with a lower bound check
only; `_free` narrows it again, from the base of the trunk.
-/
namespace OsDesign.Heap

open Virt

theorem Region.exists_place_of_offset {offset : Nat} {r : Region} (h : ofOffset offset = some r) :
    ∃ k : Fin r.slots, offset = r.place k := by
  have hslot : (offset - r.start) / r.size < r.slots := by
    simp only [ofOffset] at h
    cases r <;> simp only [start, size, slots] <;> grind
  exact ⟨⟨_, hslot⟩, (place_of_offset h hslot).symm⟩

/-- Both narrowings of a pointer agree on its place in the trunk. -/
theorem ptrOffset_add {base ptr k : Nat} (low : k ≤ ptrOffset base ptr) :
    ptrOffset (base + k) ptr = ptrOffset base ptr - k := by
  have hsub : (ptr : Int) - (base + k : Nat) = ptr - base - k := by omega
  rw [ptrOffset, BitVec.toInt_ofInt, Int.bmod_def] at low
  rw [ptrOffset, ptrOffset, BitVec.toInt_ofInt, BitVec.toInt_ofInt, Int.bmod_def, Int.bmod_def,
    hsub]
  omega

namespace ThreadHeap

/-- The index of the record that `my_free(ptr)` reads; none if it returns before. -/
def recordOf (h : ThreadHeap) (ptr : Nat) : Option Nat :=
  if ptrOffset h.gHeapPages ptr < 0 then none
  else
    (freeTarget (h.trunkBase ((ptrOffset h.gHeapPages ptr).toNat / pageSize)) ptr).map
      fun _ => (ptrOffset h.gHeapPages ptr).toNat / pageSize

/-- If `my_free(ptr)` reads a record, it is that of a trunk in use, and a live block
at the place that the narrowed pointer names is the one at `ptr`. -/
def Handled (h : ThreadHeap) (blocks : List Block) (ptr : Nat) : Prop :=
  ∀ i, h.recordOf ptr = some i → i < h.heapTrunkCount ∧
    ∀ b, b ∈ blocks → (b.address : Int) = h.gHeapPages + ptrOffset h.gHeapPages ptr →
      b.address = ptr

variable {h : ThreadHeap} {ptr i : Nat}

theorem myFree_eq (h : ThreadHeap) (ptr : Nat) : h.myFree ptr =
    match h.recordOf ptr with
    | none => .ok h
    | some i =>
        match h.openRecord i with
        | .error stop => .error stop
        | .ok h => .ok (h.setMetadata i ((h.metadata i)._free (h.trunkBase i) ptr)) := by
  by_cases hlow : ptrOffset h.gHeapPages ptr < 0
  · simp only [myFree, recordOf, if_pos hlow]
  · simp only [myFree, recordOf, if_neg hlow]
    cases freeTarget (h.trunkBase ((ptrOffset h.gHeapPages ptr).toNat / pageSize)) ptr
    · rfl
    · rfl

/-- A record is read exactly if the narrowed pointer names the start of a slot. -/
theorem recordOf_eq_some : h.recordOf ptr = some i ↔ ∃ (r : Region) (k : Fin r.slots),
    ptrOffset h.gHeapPages ptr = (i * pageSize + r.place k : Nat) := by
  constructor
  · intro hrecord
    by_cases hlow : ptrOffset h.gHeapPages ptr < 0
    · simp [recordOf, hlow] at hrecord
    · simp only [recordOf, if_neg hlow, Option.map_eq_some_iff] at hrecord
      obtain ⟨r, hr, rfl⟩ := hrecord
      rw [freeTarget] at hr
      split at hr
      · cases hr
      · obtain ⟨k, hk⟩ := Region.exists_place_of_offset hr
        have hbelow := Nat.div_mul_le_self (ptrOffset h.gHeapPages ptr).toNat pageSize
        refine ⟨r, k, ?_⟩
        rw [← hk, trunkBase, ptrOffset_add (by omega)]
        omega
  · rintro ⟨r, k, hplace⟩
    have hlt := r.place_lt k
    have hsize := r.size_pos
    have hlow : ¬ ptrOffset h.gHeapPages ptr < 0 := by omega
    have htrunk : (ptrOffset h.gHeapPages ptr).toNat / pageSize = i := by
      rw [hplace, Int.toNat_natCast]
      change (i * 4096 + r.place k) / 4096 = i
      omega
    have htarget : freeTarget (h.trunkBase i) ptr = some r := by
      apply HeapMetadataT.freeTarget_of_place k
      rw [trunkBase, ptrOffset_add (by omega), hplace]
      omega
    rw [recordOf, if_neg hlow, htrunk, htarget, Option.map_some]

/-- The slot as it is seen from the first trunk and from its own. -/
theorem place_of_recordOf (hrecord : h.recordOf ptr = some i) :
    ∃ (r : Region) (k : Fin r.slots),
      ptrOffset h.gHeapPages ptr = (i * pageSize + r.place k : Nat) ∧
        ptrOffset (h.trunkBase i) ptr = r.place k := by
  obtain ⟨r, k, hoffset⟩ := recordOf_eq_some.mp hrecord
  refine ⟨r, k, hoffset, ?_⟩
  rw [trunkBase, ptrOffset_add (by omega)]
  omega

end ThreadHeap

end OsDesign.Heap
