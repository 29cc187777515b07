import Mathlib.Data.Fin.Tuple.Basic
import OsDesign.Lib.ByteStore

/-!
`_malloc` and `_free` of `my_malloc.c`, which `code` and `tmp2` share, on the
metadata of one page of heap: four regions of 0x400 bytes, each cut into slots
of one size, with a flag for each slot and a count of the flags set.
-/
namespace OsDesign.Heap

open ByteStore

/-- The arrays of `heap_metadata_t`, one for each size class. -/
inductive Region
  | region32
  | region64
  | region128
  | region512
  deriving DecidableEq

namespace Region

/-- `MAX_REGION32_NUM` and its siblings -/
def slots : Region → Nat
  | region32 => 32
  | region64 => 16
  | region128 => 8
  | region512 => 2

/-- The size of a slot in bytes. -/
def size : Region → Nat
  | region32 => 32
  | region64 => 64
  | region128 => 128
  | region512 => 512

/-- Where the region begins in the page. -/
def start : Region → Nat
  | region32 => 0
  | region64 => 0x400
  | region128 => 0x800
  | region512 => 0xc00

/-- The place of slot `i` in the page. -/
def place (r : Region) (i : Fin r.slots) : Nat := r.start + i * r.size

/-- The region a request goes to; none for zero bytes and for more than 512. -/
def ofSize (size : Nat) : Option Region :=
  if size = 0 then none
  else if size ≤ 32 then some region32
  else if size ≤ 64 then some region64
  else if size ≤ 128 then some region128
  else if size ≤ 512 then some region512
  else none

/-- The region whose slots start at this alignment; none for a misaligned place. -/
def ofOffset (offset : Nat) : Option Region :=
  if 0 = offset / 0x400 ∧ 0 = offset % 32 then some region32
  else if 1 = offset / 0x400 ∧ 0 = offset % 64 then some region64
  else if 2 = offset / 0x400 ∧ 0 = offset % 128 then some region128
  else if 3 = offset / 0x400 ∧ 0 = offset % 512 then some region512
  else none

theorem size_pos (r : Region) : 0 < r.size := by cases r <;> decide

theorem le_size_of_ofSize {size : Nat} {r : Region} (h : ofSize size = some r) :
    0 < size ∧ size ≤ r.size := by
  simp only [ofSize] at h
  grind [Region.size]

theorem place_lt (r : Region) (i : Fin r.slots) : r.place i + r.size ≤ 0x1000 := by
  have hi := i.isLt
  cases r <;> simp only [place, start, size, slots] at hi ⊢ <;> omega

/-- Two slots of the page are the same slot or apart. -/
theorem place_apart {r r' : Region} (i : Fin r.slots) (i' : Fin r'.slots)
    (h : ¬ (r = r' ∧ i.val = i'.val)) :
    r.place i + r.size ≤ r'.place i' ∨ r'.place i' + r'.size ≤ r.place i := by
  have hi := i.isLt
  have hi' := i'.isLt
  cases r <;> cases r' <;>
    simp only [place, start, size, slots, true_and, reduceCtorEq, false_and] at h hi hi' ⊢ <;>
    omega

/-- A slot number read off an offset leads back to the offset. -/
theorem place_of_offset {offset : Nat} {r : Region} (h : ofOffset offset = some r)
    (hslot : (offset - r.start) / r.size < r.slots) :
    r.place ⟨(offset - r.start) / r.size, hslot⟩ = offset := by
  simp only [ofOffset] at h
  simp only [place]
  split at h
  · cases h
    simp only [start, size]
    omega
  · split at h
    · cases h
      simp only [start, size]
      omega
    · split at h
      · cases h
        simp only [start, size]
        omega
      · split at h
        · cases h
          simp only [start, size]
          omega
        · cases h

theorem ofOffset_place (r : Region) (i : Fin r.slots) : ofOffset (r.place i) = some r := by
  have hi := i.isLt
  cases r <;> simp only [place, start, size, slots, ofOffset] at hi ⊢ <;> grind

theorem slot_of_place (r : Region) (i : Fin r.slots) :
    (r.place i - r.start) / r.size = i.val := by
  rw [place, Nat.add_sub_cancel_left]
  exact Nat.mul_div_cancel _ r.size_pos

end Region

/-- `heap_metadata_t` -/
structure HeapMetadataT where
  flag : (r : Region) → Fin r.slots → UInt8
  count : Region → BitVec 32

/-- `(int)(ptr - base)` -/
def ptrOffset (base ptr : Nat) : Int := (BitVec.ofInt 32 ((ptr : Int) - base)).toInt

/-- The region whose branch `_free` takes; none for a pointer out of range or misaligned. -/
def freeTarget (base ptr : Nat) : Option Region :=
  if ptrOffset base ptr < 0 ∨ 0x1000 ≤ ptrOffset base ptr then none
  else Region.ofOffset (ptrOffset base ptr).toNat

theorem ptrOffset_eq {base ptr : Nat} (low : base ≤ ptr + 2 ^ 31) (high : ptr < base + 2 ^ 31) :
    ptrOffset base ptr = (ptr : Int) - base := by
  rw [ptrOffset, BitVec.toInt_ofInt]
  apply Int.bmod_eq_of_le <;> omega

namespace HeapMetadataT

/-- The metadata `memset` to zero. -/
def zero : HeapMetadataT := ⟨fun _ _ => 0, fun _ => 0⟩

def setFlag (md : HeapMetadataT) (r : Region) (i : Fin r.slots) (value : UInt8) : HeapMetadataT :=
  { md with flag := Function.update md.flag r (Function.update (md.flag r) i value) }

def addCount (md : HeapMetadataT) (r : Region) (d : BitVec 32) : HeapMetadataT :=
  { md with count := Function.update md.count r (md.count r + d) }

/-- The slot is taken and counted. -/
def occupy (md : HeapMetadataT) (r : Region) (i : Fin r.slots) : HeapMetadataT :=
  (md.setFlag r i 1).addCount r 1

/-- The slot is given back. -/
def vacate (md : HeapMetadataT) (r : Region) (i : Fin r.slots) : HeapMetadataT :=
  (md.setFlag r i 0).addCount r (-1)

/-- The branch of `_malloc` for one size class; `none` is `NULL`. -/
def mallocIn (md : HeapMetadataT) (r : Region) (base : Nat) : HeapMetadataT × Option Nat :=
  if (r.slots : Int) ≤ (md.count r).toInt then (md, none)
  else
    match Fin.find? fun i => md.flag r i == 0 with
    | some i => (md.occupy r i, some (base + r.place i))
    | none => (md, none)

def _malloc (md : HeapMetadataT) (base size : Nat) : HeapMetadataT × Option Nat :=
  match Region.ofSize size with
  | none => (md, none)
  | some r => md.mallocIn r base

/-- The branch of `_free` for one size class. -/
def freeIn (md : HeapMetadataT) (r : Region) (slot : Fin r.slots) : HeapMetadataT :=
  if md.count r = 0 then md
  else if md.flag r slot = 1 then md.vacate r slot
  else md

/-- The slot is always in the array: the offset is within the region. -/
def _free (md : HeapMetadataT) (base ptr : Nat) : HeapMetadataT :=
  match freeTarget base ptr with
  | none => md
  | some r =>
      if h : ((ptrOffset base ptr).toNat - r.start) / r.size < r.slots then
        md.freeIn r ⟨((ptrOffset base ptr).toNat - r.start) / r.size, h⟩
      else md

variable {md : HeapMetadataT} {r r' : Region}

theorem flag_setFlag_self (md : HeapMetadataT) (i : Fin r.slots) (value : UInt8) :
    (md.setFlag r i value).flag r i = value := by
  simp [setFlag]

theorem flag_setFlag_of_ne (md : HeapMetadataT) (i : Fin r.slots) (j : Fin r'.slots)
    (value : UInt8) (h : ¬ (r' = r ∧ j.val = i.val)) :
    (md.setFlag r i value).flag r' j = md.flag r' j := by
  by_cases hr : r' = r
  · subst hr
    have hji : j ≠ i := fun same => h ⟨rfl, congrArg Fin.val same⟩
    simp [setFlag, hji]
  · simp [setFlag, hr]

@[simp] theorem flag_occupy_self (md : HeapMetadataT) (i : Fin r.slots) :
    (md.occupy r i).flag r i = 1 :=
  md.flag_setFlag_self i 1

theorem flag_occupy_of_ne (md : HeapMetadataT) (i : Fin r.slots) (j : Fin r'.slots)
    (h : ¬ (r' = r ∧ j.val = i.val)) : (md.occupy r i).flag r' j = md.flag r' j :=
  md.flag_setFlag_of_ne i j 1 h

@[simp] theorem count_occupy_self (md : HeapMetadataT) (i : Fin r.slots) :
    (md.occupy r i).count r = md.count r + 1 :=
  Function.update_self r _ md.count

theorem count_occupy_of_ne (md : HeapMetadataT) (i : Fin r.slots) (h : r' ≠ r) :
    (md.occupy r i).count r' = md.count r' :=
  Function.update_of_ne h _ md.count

@[simp] theorem flag_vacate_self (md : HeapMetadataT) (i : Fin r.slots) :
    (md.vacate r i).flag r i = 0 :=
  md.flag_setFlag_self i 0

theorem flag_vacate_of_ne (md : HeapMetadataT) (i : Fin r.slots) (j : Fin r'.slots)
    (h : ¬ (r' = r ∧ j.val = i.val)) : (md.vacate r i).flag r' j = md.flag r' j :=
  md.flag_setFlag_of_ne i j 0 h

@[simp] theorem count_vacate_self (md : HeapMetadataT) (i : Fin r.slots) :
    (md.vacate r i).count r = md.count r - 1 := by
  change Function.update md.count r (md.count r + -1) r = _
  rw [Function.update_self, BitVec.sub_eq_add_neg]

theorem count_vacate_of_ne (md : HeapMetadataT) (i : Fin r.slots) (h : r' ≠ r) :
    (md.vacate r i).count r' = md.count r' :=
  Function.update_of_ne h _ md.count

/-- `_malloc` returns `NULL` and changes nothing, or takes the first clear slot
of the class. -/
theorem malloc_cases (md : HeapMetadataT) (base size : Nat) :
    md._malloc base size = (md, none) ∨
    ∃ r i, Region.ofSize size = some r ∧ md.flag r i = 0 ∧ (∀ j, j < i → md.flag r j ≠ 0) ∧
      md._malloc base size = (md.occupy r i, some (base + r.place i)) := by
  cases hr : Region.ofSize size with
  | none =>
      left
      simp only [_malloc, hr]
  | some r =>
      by_cases hfull : (r.slots : Int) ≤ (md.count r).toInt
      · left
        simp only [_malloc, hr, mallocIn, if_pos hfull]
      · cases hfind : Fin.find? fun i => md.flag r i == 0 with
        | none =>
            left
            simp only [_malloc, hr, mallocIn, if_neg hfull, hfind]
        | some i =>
            right
            obtain ⟨hclear, hfirst⟩ := Fin.find?_eq_some_iff.mp hfind
            refine ⟨r, i, rfl, by simpa using hclear, ?_, ?_⟩
            · intro j hj
              simpa using hfirst j hj
            · simp only [_malloc, hr, mallocIn, if_neg hfull, hfind]

theorem freeTarget_of_place {base ptr : Nat} {r : Region} (i : Fin r.slots)
    (h : ptrOffset base ptr = r.place i) : freeTarget base ptr = some r := by
  have hlt := r.place_lt i
  have hsize := r.size_pos
  have hrange : ¬ (ptrOffset base ptr < 0 ∨ 0x1000 ≤ ptrOffset base ptr) := by
    rw [h]
    omega
  rw [freeTarget, if_neg hrange, h, Int.toNat_natCast, Region.ofOffset_place]

theorem free_of_place {base ptr : Nat} (i : Fin r.slots) (h : ptrOffset base ptr = r.place i) :
    md._free base ptr = md.freeIn r i := by
  rw [_free, freeTarget_of_place i h]
  simp only [h, Int.toNat_natCast, Region.slot_of_place, Fin.eta, i.isLt, dif_pos]

/-- `_free` of the start of a slot goes to that slot; any other pointer changes nothing. -/
theorem free_cases (md : HeapMetadataT) (base ptr : Nat) :
    (∃ r i, ptrOffset base ptr = Region.place r i ∧ md._free base ptr = md.freeIn r i) ∨
    (∀ r i, ptrOffset base ptr ≠ Region.place r i) ∧ md._free base ptr = md := by
  by_cases hplace : ∃ r i, ptrOffset base ptr = Region.place r i
  · obtain ⟨r, i, h⟩ := hplace
    exact .inl ⟨r, i, h, free_of_place i h⟩
  · right
    refine ⟨fun r i h => hplace ⟨r, i, h⟩, ?_⟩
    by_cases hrange : ptrOffset base ptr < 0 ∨ 0x1000 ≤ ptrOffset base ptr
    · rw [_free, freeTarget, if_pos hrange]
    · rw [_free, freeTarget, if_neg hrange]
      cases hr : Region.ofOffset (ptrOffset base ptr).toNat with
      | none => rfl
      | some r =>
          apply dif_neg
          intro hslot
          apply hplace
          refine ⟨r, ⟨_, hslot⟩, ?_⟩
          rw [Region.place_of_offset hr hslot]
          omega

end HeapMetadataT

end OsDesign.Heap
