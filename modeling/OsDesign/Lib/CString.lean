import Mathlib.Data.UInt
import Mathlib.Logic.Function.Basic

/-!
Strings of C in a memory of bytes: a buffer that is cleared and filled byte by byte, and a
string that is read byte by byte up to its NUL.
-/
namespace CString

/-- The `n` bytes from `p` on are those of the string, with zeros behind its end. -/
def Begins (memory : Nat → UInt8) (p : Nat) (text : List UInt8) (n : Nat) : Prop :=
  ∀ j, j < n → memory (p + j) = text.getD j 0

variable {memory memory' : Nat → UInt8} {p n i : Nat} {text read : List UInt8}

theorem Begins.zero (memory : Nat → UInt8) (p : Nat) (text : List UInt8) :
    Begins memory p text 0 :=
  fun _ hj => absurd hj (Nat.not_lt_zero _)

theorem Begins.congr (begins : Begins memory p text n)
    (same : ∀ j, j < n → memory' (p + j) = memory (p + j)) : Begins memory' p text n :=
  fun j hj => (same j hj).trans (begins j hj)

/-- One more byte of the string. With the empty string this clears a buffer. -/
theorem Begins.push (begins : Begins memory p text n) :
    Begins (Function.update memory (p + n) (text.getD n 0)) p text (n + 1) := by
  intro j hj
  by_cases last : j = n
  · rw [last, Function.update_self]
  · rw [Function.update_of_ne (by omega)]
    exact begins j (by omega)

/-- One more byte of a string that is copied into a cleared buffer. -/
theorem Begins.copy (begins : Begins memory p (text.take i) n) :
    Begins (Function.update memory (p + i) (text.getD i 0)) p (text.take (i + 1)) n := by
  intro j hj
  by_cases here : j = i
  · rw [here, Function.update_self, List.getD_eq_getElem?_getD, List.getD_eq_getElem?_getD,
      List.getElem?_take_of_lt (Nat.lt_succ_self i)]
  · rw [Function.update_of_ne (by omega), begins j hj, List.getD_eq_getElem?_getD,
      List.getD_eq_getElem?_getD, List.getElem?_take, List.getElem?_take]
    by_cases before : j < i
    · rw [if_pos before, if_pos (by omega)]
    · rw [if_neg before, if_neg (by omega)]

/-- What was read so far, and the byte behind it: the NUL behind the whole string, or one
more byte of it. -/
theorem scan_cases (nonzero : 0 ∉ text) (prior : read <+: text) :
    (text.getD read.length 0 = 0 ∧ read = text) ∨
      (text.getD read.length 0 ≠ 0 ∧ read ++ [text.getD read.length 0] <+: text) := by
  obtain ⟨rest, rfl⟩ := prior
  cases rest with
  | nil =>
      left
      simp
  | cons b rest =>
      have byte : (read ++ b :: rest).getD read.length 0 = b := by simp
      right
      rw [byte]
      refine ⟨?_, rest, by simp⟩
      rintro rfl
      exact nonzero (List.mem_append_right _ List.mem_cons_self)

end CString
