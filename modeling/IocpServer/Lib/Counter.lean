import Mathlib.Data.Nat.Basic

/-!
# Counters in machine words

A word holds how much more often one thing has happened than another.

* `ofNat_succ_sub`, `ofNat_sub_succ` — one of the two happens once more.
* `lt_of_ofNat_sub_ne_zero` — a word other than zero tells which of them is ahead.
-/

set_option autoImplicit false

namespace Lib

variable {a b : Nat}

theorem ofNat_succ_sub (h : b ≤ a) : UInt32.ofNat (a - b) + 1 = UInt32.ofNat (a + 1 - b) := by
  have next : a + 1 - b = a - b + 1 := by omega
  rw [next]
  exact (UInt32.ofNat_add _ _).symm

theorem ofNat_sub_succ (h : b < a) : UInt32.ofNat (a - b) - 1 = UInt32.ofNat (a - (b + 1)) := by
  have next : a - b = a - (b + 1) + 1 := by omega
  rw [next, UInt32.ofNat_add]
  simp

theorem lt_of_ofNat_sub_ne_zero (h : UInt32.ofNat (a - b) ≠ 0) : b < a := by
  by_contra hle
  have none : a - b = 0 := by omega
  exact h (by rw [none]; rfl)

/-- A word that is positive as an `int` is not zero. -/
theorem ne_zero_of_positive {word : UInt32} (h : ¬ word.toInt32 ≤ 0) : word ≠ 0 := by
  rintro rfl
  exact h (by decide)

end Lib
