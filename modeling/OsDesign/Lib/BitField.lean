import Mathlib.Algebra.Group.Nat.Defs
import Mathlib.Data.Nat.Basic

/-!
Bit-fields of a machine word. A field is given by its lowest bit and its
width; writing one field leaves every bit outside it as it was, so a sequence
of field writes is read back by comparing the fields' positions only.
-/
namespace BitField

variable {w : Nat}

/-- The `len` bits of `x` from bit `lo` upwards. -/
def get (lo len : Nat) (x : BitVec w) : BitVec len :=
  x.extractLsb' lo len

/-- `x` with the `len` bits from bit `lo` upwards replaced by `v`. -/
def set (lo : Nat) {len : Nat} (v : BitVec len) (x : BitVec w) : BitVec w :=
  (x &&& ~~~((BitVec.allOnes len).setWidth w <<< lo)) ||| (v.setWidth w <<< lo)

theorem getLsbD_set (lo : Nat) {len : Nat} (v : BitVec len) (x : BitVec w) (i : Nat)
    (hi : i < w) :
    (set lo v x).getLsbD i =
      if lo ≤ i ∧ i < lo + len then v.getLsbD (i - lo) else x.getLsbD i := by
  by_cases h : lo ≤ i ∧ i < lo + len
  · have h1 : ¬ i < lo := by omega
    have h2 : i - lo < len := by omega
    simp [set, h, hi, h1, h2]
  · by_cases h1 : i < lo
    · have h2 : ¬ lo ≤ i := by omega
      simp [set, hi, h1, h2]
    · have h2 : ¬ i - lo < len := by omega
      have h3 : v.getLsbD (i - lo) = false := BitVec.getLsbD_of_ge v _ (by omega)
      simp [set, h, hi, h1, h2, h3]

/-- A field that fits reads back what was written to it. -/
theorem get_set_self (lo : Nat) {len : Nat} (v : BitVec len) (x : BitVec w)
    (fits : lo + len ≤ w) : get lo len (set lo v x) = v := by
  ext i hi
  have h : lo ≤ lo + i ∧ lo + i < lo + len := by omega
  simp only [get, BitVec.getElem_extractLsb', getLsbD_set lo v x (lo + i) (by omega), h]
  simp [hi]

/-- Writing one field leaves every field that does not meet it. -/
theorem get_set_of_disjoint (lo : Nat) {len : Nat} (v : BitVec len) (x : BitVec w)
    (lo' len' : Nat) (fits : lo' + len' ≤ w)
    (apart : lo' + len' ≤ lo ∨ lo + len ≤ lo') :
    get lo' len' (set lo v x) = get lo' len' x := by
  ext i hi
  have h : ¬ (lo ≤ lo' + i ∧ lo' + i < lo + len) := by omega
  simp only [get, BitVec.getElem_extractLsb', getLsbD_set lo v x (lo' + i) (by omega), h]
  simp

/-- A word with a non-zero field is not zero. -/
theorem ne_zero_of_get {lo len : Nat} {x : BitVec w} (h : get lo len x ≠ 0) :
    x ≠ 0#w := by
  intro same
  subst same
  apply h
  ext i hi
  simp [get]

end BitField
