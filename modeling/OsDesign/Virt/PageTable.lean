import OsDesign.Lib.BitField

/-!
Page-table entries of `virt.h`. One 64-bit `Long` is read through two sets of
bit-fields: the hardware view names a frame, the software view a byte offset of
the swap file. `Mmpte.view` is what the tests of `virt.c` can tell about an
entry; the lemmas say which view each of the code's write sequences leaves.
-/
namespace OsDesign.Virt

/-- `struct _mmpte`; the bit-fields are allocated from the least significant bit. -/
structure Mmpte where
  long : BitVec 64
  deriving DecidableEq

namespace Mmpte

def zero : Mmpte := ⟨0#64⟩

/-! The hardware view: `valid : 1`, `write : 1`, `reserved : 10`,
`pageframenumber : 20`. -/

def hardValid (e : Mmpte) : BitVec 1 := BitField.get 0 1 e.long

def hardPageframenumber (e : Mmpte) : Nat := (BitField.get 12 20 e.long).toNat

def setHardValid (v : BitVec 1) (e : Mmpte) : Mmpte := ⟨BitField.set 0 v e.long⟩

/-- Storing an `int` in the 20-bit field keeps its low 20 bits. -/
def setHardPageframenumber (pfn : Nat) (e : Mmpte) : Mmpte :=
  ⟨BitField.set 12 (BitVec.ofNat 20 pfn) e.long⟩

/-! The software view: `valid : 1`, `swapout : 1`, `gefilea_pos : 30`. -/

def softSwapout (e : Mmpte) : BitVec 1 := BitField.get 1 1 e.long

def softGefileaPos (e : Mmpte) : Nat := (BitField.get 2 30 e.long).toNat

def setSoftValid (v : BitVec 1) (e : Mmpte) : Mmpte := ⟨BitField.set 0 v e.long⟩

def setSoftSwapout (v : BitVec 1) (e : Mmpte) : Mmpte := ⟨BitField.set 1 v e.long⟩

def setSoftGefileaPos (offset : Nat) (e : Mmpte) : Mmpte :=
  ⟨BitField.set 2 (BitVec.ofNat 30 offset) e.long⟩

/-- What the tests of `virt.c` distinguish: `Long == 0`, then `hard.valid`, then
`soft.swapout`. No code path treats a `stray` entry. -/
inductive View
  | unused
  | inMemory (pfn : Nat)
  | swappedOut (offset : Nat)
  | stray
  deriving DecidableEq

def view (e : Mmpte) : View :=
  if e.long = 0#64 then .unused
  else if e.hardValid = 1#1 then .inMemory e.hardPageframenumber
  else if e.softSwapout = 1#1 then .swappedOut e.softGefileaPos
  else .stray

theorem long_ne_zero_of_hardValid {e : Mmpte} (h : e.hardValid = 1#1) : e.long ≠ 0#64 := by
  have set : BitField.get 0 1 e.long ≠ 0 := by
    change e.hardValid ≠ 0
    rw [h]
    decide
  exact BitField.ne_zero_of_get set

theorem long_ne_zero_of_softSwapout {e : Mmpte} (h : e.softSwapout = 1#1) : e.long ≠ 0#64 := by
  have set : BitField.get 1 1 e.long ≠ 0 := by
    change e.softSwapout ≠ 0
    rw [h]
    decide
  exact BitField.ne_zero_of_get set

@[simp] theorem view_zero : zero.view = .unused := by simp [view, zero]

theorem view_eq_unused {e : Mmpte} : e.view = .unused ↔ e.long = 0#64 := by
  by_cases h : e.long = 0#64
  · simp [view, h]
  · simp only [view, h, if_false, iff_false]
    split
    · simp
    · split <;> simp

theorem view_eq_inMemory {e : Mmpte} {pfn : Nat} :
    e.view = .inMemory pfn ↔ e.hardValid = 1#1 ∧ e.hardPageframenumber = pfn := by
  constructor
  · unfold view
    split
    · simp
    · split
      · rename_i h
        simp [h]
      · split <;> simp
  · intro ⟨hv, hp⟩
    have := long_ne_zero_of_hardValid hv
    simp [view, this, hv, hp]

theorem view_eq_swappedOut {e : Mmpte} {offset : Nat} :
    e.view = .swappedOut offset ↔
      e.hardValid ≠ 1#1 ∧ e.softSwapout = 1#1 ∧ e.softGefileaPos = offset := by
  constructor
  · unfold view
    split
    · simp
    · split
      · simp
      · split
        · rename_i h₁ h₂
          simp [h₁, h₂]
        · simp
  · intro ⟨hv, hs, ho⟩
    have := long_ne_zero_of_softSwapout hs
    simp [view, this, hv, hs, ho]

theorem hardValid_eq_one_iff {e : Mmpte} :
    e.hardValid = 1#1 ↔ e.view = .inMemory e.hardPageframenumber := by
  simp [view_eq_inMemory]

theorem hardValid_eq_zero_iff {e : Mmpte} : e.hardValid = 0#1 ↔ e.hardValid ≠ 1#1 := by
  generalize e.hardValid = v
  revert v
  decide

/-! What one field reads after another one is written. -/

@[simp] theorem hardValid_setHardValid (v : BitVec 1) (e : Mmpte) :
    (e.setHardValid v).hardValid = v :=
  BitField.get_set_self 0 v _ (by omega)

@[simp] theorem hardValid_setSoftValid (v : BitVec 1) (e : Mmpte) :
    (e.setSoftValid v).hardValid = v :=
  BitField.get_set_self 0 v _ (by omega)

@[simp] theorem hardValid_setSoftSwapout (v : BitVec 1) (e : Mmpte) :
    (e.setSoftSwapout v).hardValid = e.hardValid :=
  BitField.get_set_of_disjoint 1 v _ 0 1 (by omega) (by omega)

@[simp] theorem hardValid_setSoftGefileaPos (offset : Nat) (e : Mmpte) :
    (e.setSoftGefileaPos offset).hardValid = e.hardValid :=
  BitField.get_set_of_disjoint 2 (BitVec.ofNat 30 offset) _ 0 1 (by omega) (by omega)

@[simp] theorem hardValid_setHardPageframenumber (pfn : Nat) (e : Mmpte) :
    (e.setHardPageframenumber pfn).hardValid = e.hardValid :=
  BitField.get_set_of_disjoint 12 (BitVec.ofNat 20 pfn) _ 0 1 (by omega) (by omega)

@[simp] theorem hardPageframenumber_setHardValid (v : BitVec 1) (e : Mmpte) :
    (e.setHardValid v).hardPageframenumber = e.hardPageframenumber :=
  congrArg BitVec.toNat (BitField.get_set_of_disjoint 0 v _ 12 20 (by omega) (by omega))

theorem hardPageframenumber_setHardPageframenumber (e : Mmpte) {pfn : Nat} (h : pfn < 2 ^ 20) :
    (e.setHardPageframenumber pfn).hardPageframenumber = pfn := by
  rw [hardPageframenumber, setHardPageframenumber, BitField.get_set_self 12 _ _ (by omega),
    BitVec.toNat_ofNat, Nat.mod_eq_of_lt h]

/-- `mm_allocate_page`: the frame number, then the valid bit. -/
def granted (pfn : Nat) (e : Mmpte) : Mmpte :=
  (e.setHardPageframenumber pfn).setHardValid 1#1

/-- `evict_page`: valid bit off, swapout bit on, then the offset. -/
def evicted (offset : Nat) (e : Mmpte) : Mmpte :=
  ((e.setSoftValid 0#1).setSoftSwapout 1#1).setSoftGefileaPos offset

/-- `pagefault_handler`: the whole word cleared, the valid bit, the frame number. -/
def faultedIn (pfn : Nat) : Mmpte :=
  (zero.setHardValid 1#1).setHardPageframenumber pfn

theorem view_granted (e : Mmpte) {pfn : Nat} (h : pfn < 2 ^ 20) :
    (e.granted pfn).view = .inMemory pfn := by
  rw [view_eq_inMemory, granted, hardValid_setHardValid, hardPageframenumber_setHardValid]
  exact ⟨rfl, hardPageframenumber_setHardPageframenumber e h⟩

theorem view_faultedIn {pfn : Nat} (h : pfn < 2 ^ 20) :
    (faultedIn pfn).view = .inMemory pfn := by
  rw [view_eq_inMemory, faultedIn, hardValid_setHardPageframenumber, hardValid_setHardValid]
  exact ⟨rfl, hardPageframenumber_setHardPageframenumber _ h⟩

theorem view_evicted (e : Mmpte) {offset : Nat} (h : offset < 2 ^ 30) :
    (e.evicted offset).view = .swappedOut offset := by
  rw [view_eq_swappedOut, evicted]
  refine ⟨?_, ?_, ?_⟩
  · rw [hardValid_setSoftGefileaPos, hardValid_setSoftSwapout, hardValid_setSoftValid]
    decide
  · rw [softSwapout, setSoftGefileaPos, setSoftSwapout,
      BitField.get_set_of_disjoint 2 (BitVec.ofNat 30 offset) _ 1 1 (by omega) (by omega),
      BitField.get_set_self 1 1#1 _ (by omega)]
  · rw [softGefileaPos, setSoftGefileaPos, BitField.get_set_self 2 _ _ (by omega),
      BitVec.toNat_ofNat, Nat.mod_eq_of_lt h]

end Mmpte

end OsDesign.Virt
